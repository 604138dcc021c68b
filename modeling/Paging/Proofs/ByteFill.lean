import Mathlib.Tactic.SplitIfs
import Paging.Bytes
/-!
# Filling bytes by doubling

`Bytes.fill` sets a run of bytes by writing the first one and then copying the filled run after
itself, so the run doubles with each copy until a last, partial copy completes it. This module
shows that it sets the same bytes as the loop that sets them one at a time:

* `Filled buf out offset k v` says that `out` is `buf` with the `k` bytes from `offset` set to
  `v`; two buffers filled alike are equal (`Filled.eq`);
* setting one more byte extends the run by one (`Filled.setByte`), and copying at most the whole
  filled run after it extends the run by the length of the copy (`Filled.copy`);
* so the doubling loop, from any filled run of positive length, fills the whole run
  (`Filled.spread`), as the byte loop does (`filled_fillEach`).

Main statement: `Bytes.fill_sets_each_byte`.
-/

namespace Paging

namespace Bytes

/-! ## The buffer operations -/

theorem size_setByte (buf : ByteArray) (i : Nat) (v : UInt8) :
    (setByte buf i v).size = buf.size := by
  unfold setByte
  split
  · rw [← ByteArray.size_data, ByteArray.data_set, Array.size_set, ByteArray.size_data]
  · rfl

theorem getElem_setByte (buf : ByteArray) (i : Nat) (v : UInt8) {j : Nat} (hj : j < buf.size)
    (hj' : j < (setByte buf i v).size) :
    (setByte buf i v)[j] = if i = j then v else buf[j] := by
  unfold setByte
  split
  · simp only [ByteArray.getElem_eq_getElem_data, ByteArray.data_set, Array.getElem_set]
  · rename_i hi
    rw [if_neg (show i ≠ j by omega)]

theorem size_copySlice_self (buf : ByteArray) {src dst len : Nat} (hs : src + len ≤ buf.size)
    (hd : dst + len ≤ buf.size) : (buf.copySlice src buf dst len).size = buf.size := by
  simp only [ByteArray.copySlice, ByteArray.size, Array.size_append, Array.size_extract]
  simp only [ByteArray.size] at hs hd
  omega

/-- A copy of `len` bytes within one buffer, from `src` to `dst`, both inside the buffer: the
bytes at `dst` on are read from `src` on, and the others are kept. -/
theorem getElem_copySlice_self (buf : ByteArray) {src dst len i : Nat} (hs : src + len ≤ buf.size)
    (hd : dst + len ≤ buf.size) (hi : i < buf.size)
    (hi' : i < (buf.copySlice src buf dst len).size) :
    (buf.copySlice src buf dst len)[i] =
      if h : dst ≤ i ∧ i < dst + len then buf[src + (i - dst)] else buf[i] := by
  simp only [ByteArray.size] at hs hd hi
  simp only [ByteArray.copySlice, ByteArray.getElem_eq_getElem_data, Array.getElem_append,
    Array.getElem_extract, Array.size_append, Array.size_extract]
  -- the result is the bytes before `dst`, the copied bytes and the bytes after them
  split_ifs with hhead hlow hin hin' hin''
  · omega
  · congr 1
    omega
  · congr 1
    omega
  · omega
  · omega
  · congr 1
    omega

/-! ## Filled runs -/

/-- `out` is `buf` with the `k` bytes from `offset` on set to `v`. -/
structure Filled (buf out : ByteArray) (offset k : Nat) (v : UInt8) : Prop where
  size_eq : out.size = buf.size
  getElem_eq : ∀ i (hi : i < out.size) (hb : i < buf.size),
    out[i] = if offset ≤ i ∧ i < offset + k then v else buf[i]

namespace Filled

variable {buf out out' : ByteArray} {offset k : Nat} {v : UInt8}

/-- A buffer filled from `buf` is determined by the run it fills. -/
theorem eq (h : Filled buf out offset k v) (h' : Filled buf out' offset k v) : out = out' :=
  ByteArray.ext_getElem (h.size_eq.trans h'.size_eq.symm) fun i hi hi' => by
    have hb : i < buf.size := h.size_eq ▸ hi
    rw [h.getElem_eq i hi hb, h'.getElem_eq i hi' hb]

theorem zero (buf : ByteArray) (offset : Nat) (v : UInt8) : Filled buf buf offset 0 v :=
  ⟨rfl, fun i hi hb => by rw [if_neg (by omega)]⟩

/-- One more byte set. -/
theorem setByte (h : Filled buf out offset k v) :
    Filled buf (Bytes.setByte out (offset + k) v) offset (k + 1) v := by
  refine ⟨(size_setByte _ _ _).trans h.size_eq, fun i hi hb => ?_⟩
  have hout : i < out.size := h.size_eq ▸ hb
  rw [getElem_setByte _ _ _ hout hi, h.getElem_eq i hout hb]
  by_cases hik : offset + k = i
  · simp [hik]
    omega
  · simp only [hik, if_false]
    congr 1
    apply propext
    omega

/-- A copy of the first `len` filled bytes after the `f` filled ones, with `len ≤ f`. -/
theorem copy {f len : Nat} (h : Filled buf out offset f v) (hlen : len ≤ f)
    (hfit : offset + f + len ≤ buf.size) :
    Filled buf (out.copySlice offset out (offset + f) len) offset (f + len) v := by
  have hs : offset + len ≤ out.size := by rw [h.size_eq]; omega
  have hd : offset + f + len ≤ out.size := by rw [h.size_eq]; omega
  refine ⟨(size_copySlice_self out hs hd).trans h.size_eq, fun i hi hb => ?_⟩
  have hout : i < out.size := h.size_eq ▸ hb
  rw [getElem_copySlice_self out hs hd hout hi]
  split
  · -- a copied byte is read from the filled run, since the copy is no longer than the run
    rename_i hin
    rw [h.getElem_eq (offset + (i - (offset + f))) _ (by omega), if_pos (by omega),
      if_pos (by omega)]
  · rename_i hout'
    rw [h.getElem_eq i hout hb]
    congr 1
    apply propext
    omega

/-- The doubling loop, from a filled run of positive length, fills all `size` bytes. -/
theorem spread {filled size : Nat} (h : Filled buf out offset (min filled size) v)
    (hs : offset + size ≤ buf.size) (hpos : 0 < filled) :
    Filled buf (Bytes.spread out offset size filled hpos) offset size v := by
  fun_induction Bytes.spread out offset size filled hpos with
  | case1 out f hf hlt ih =>
    -- the copy doubles the run, or completes it when the doubled run would pass its end
    have hrun : Filled buf out offset f v := by rwa [Nat.min_eq_left (Nat.le_of_lt hlt)] at h
    rw [show min (2 * f) size = f + min f (size - f) by omega] at ih
    exact ih (hrun.copy (Nat.min_le_left _ _) (by omega))
  | case2 out f hf hge =>
    rwa [Nat.min_eq_right (by omega)] at h

end Filled

theorem filled_fillEach (buf : ByteArray) (offset : Nat) (v : UInt8) (k : Nat) :
    Filled buf (fillEach buf offset v k) offset k v := by
  induction k with
  | zero => exact Filled.zero buf offset v
  | succ k ih => exact ih.setByte

theorem filled_fill {buf : ByteArray} {offset size : Nat} (v : UInt8)
    (hs : offset + size ≤ buf.size) : Filled buf (fill buf offset size v) offset size v := by
  unfold fill
  split
  · rename_i h0
    subst h0
    exact Filled.zero buf offset v
  · -- the first byte is set by hand, then the run doubles from one byte
    have hfirst : Filled buf (setByte buf offset v) offset (min 1 size) v := by
      rw [Nat.min_eq_left (by omega)]
      simpa using (Filled.zero buf offset v).setByte
    exact hfirst.spread hs _

/-- Filling `size` bytes from `offset` inside the buffer by doubling ends with the buffer that
setting the bytes one at a time gives: every byte of `[offset, offset + size)` is `v` and every
other byte is as it was. -/
theorem fill_sets_each_byte (buf : ByteArray) (offset size : Nat) (v : UInt8)
    (hs : offset + size ≤ buf.size) :
    fill buf offset size v = fillEach buf offset v size ∧
      Filled buf (fill buf offset size v) offset size v :=
  ⟨(filled_fill v hs).eq (filled_fillEach buf offset v size), filled_fill v hs⟩

/-- Five bytes filled in the middle of a buffer of sixteen. -/
theorem fill_sets_each_byte_of_sixteen :
    3 + 5 ≤ (ByteArray.mk (Array.replicate 16 0x5a)).size ∧
      (fill (ByteArray.mk (Array.replicate 16 0x5a)) 3 5 0x7f =
          fillEach (ByteArray.mk (Array.replicate 16 0x5a)) 3 0x7f 5 ∧
        Filled (ByteArray.mk (Array.replicate 16 0x5a))
          (fill (ByteArray.mk (Array.replicate 16 0x5a)) 3 5 0x7f) 3 5 0x7f) :=
  ⟨by decide, fill_sets_each_byte _ 3 5 0x7f (by decide)⟩

end Bytes

end Paging
