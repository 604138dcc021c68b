import Paging.Proofs.Translation
import Paging.Proofs.ByteFill
/-!
# Clearing a table as bytes

A new table is cleared by `Memory.fill`, which writes whole words of zero when the fill lies on
words, as a table always does; the clearing it stands for is a `memset` of the table's bytes
(`Bytes.fill`). This module shows that the two set the same bytes:

* a word is little-endian: byte `j` of `wordOfBytes bytes` is byte `j` of the list
  (`byte_wordOfBytes`), and the byte at an address is the byte of its word at the address's
  offset (`toNat_readByte`);
* so a fill of whole aligned words sets each byte it covers and keeps every other
  (`readByte_fill`);
* and the bytes of any window of memory around such a fill are those that `Bytes.fill` gives on
  the window's bytes from before (`readBytes_fill`). A new table's frames are cleared so
  (`Machine.newTable_clears_as_fill`).
-/

namespace Paging

namespace Memory

theorem wordOfBytes_cons (b : UInt8) (bs : List UInt8) :
    wordOfBytes (b :: bs) = (wordOfBytes bs <<< 8) ||| b.toUInt64 :=
  rfl

/-- Shifting a word a byte up and putting a byte below it, with no bit lost. -/
theorem toNat_shiftLeft_or {w : UInt64} (b : UInt8) (h : w.toNat < 2 ^ 56) :
    ((w <<< 8) ||| b.toUInt64).toNat = w.toNat * 256 + b.toNat := by
  have hb : b.toNat < 2 ^ 8 := b.toNat_lt
  rw [UInt64.toNat_or, UInt64.toNat_shiftLeft, UInt8.toNat_toUInt64,
    show (8 : UInt64).toNat % 64 = 8 from rfl, Nat.shiftLeft_eq, Nat.mod_eq_of_lt (by omega),
    ← Nat.shiftLeft_eq, ← Nat.shiftLeft_add_eq_or_of_lt hb, Nat.shiftLeft_eq]

/-- A word of `k ≤ 8` bytes is below `256 ^ k`. -/
theorem toNat_wordOfBytes_lt : ∀ bs : List UInt8, bs.length ≤ 8 →
    (wordOfBytes bs).toNat < 256 ^ bs.length
  | [], _ => by decide
  | b :: bs, h => by
    have hlen : bs.length ≤ 7 := by simp at h; omega
    have ih := toNat_wordOfBytes_lt bs (by omega)
    have h56 : 256 ^ bs.length ≤ 2 ^ 56 :=
      (Nat.pow_le_pow_right (by norm_num) hlen).trans (by norm_num)
    have hb : b.toNat < 256 := b.toNat_lt
    rw [wordOfBytes_cons, toNat_shiftLeft_or b (by omega), List.length_cons, pow_succ]
    omega

theorem toNat_wordOfBytes_cons (b : UInt8) {bs : List UInt8} (h : bs.length ≤ 7) :
    (wordOfBytes (b :: bs)).toNat = (wordOfBytes bs).toNat * 256 + b.toNat := by
  have hw := toNat_wordOfBytes_lt bs (by omega)
  have h56 : 256 ^ bs.length ≤ 2 ^ 56 := (Nat.pow_le_pow_right (by norm_num) h).trans (by norm_num)
  rw [wordOfBytes_cons]
  exact toNat_shiftLeft_or b (by omega)

/-- A word is little-endian: its byte `j` is the byte `j` of the list it was built from, and
`0` past the list. -/
theorem byte_wordOfBytes : ∀ (bs : List UInt8), bs.length ≤ 8 → ∀ j : Nat,
    (wordOfBytes bs).toNat / 256 ^ j % 256 = (bs.getD j 0).toNat
  | [], _, j => by simp [wordOfBytes]
  | b :: bs, h, j => by
    have hlen : bs.length ≤ 7 := by simp at h; omega
    have hb : b.toNat < 256 := b.toNat_lt
    rw [toNat_wordOfBytes_cons b hlen]
    cases j with
    | zero => simp
    | succ j =>
      rw [pow_succ', ← Nat.div_div_eq_div_mul, Nat.mul_comm _ 256,
        Nat.mul_add_div (by norm_num : 0 < 256), Nat.div_eq_of_lt hb, Nat.add_zero,
        byte_wordOfBytes bs (by omega) j]
      simp

/-- The byte at an address is the byte of its word at the address's offset in the word. -/
theorem toNat_readByte (m : Memory) (a : PhysAddr) :
    (m.readByte a).toNat = (m.word (a >>> 3)).toNat / 256 ^ (a.toNat % 8) % 256 := by
  have hoff : ((a &&& 7) * 8).toNat = a.toNat % 8 * 8 := by
    rw [UInt64.toNat_mul, UInt64.toNat_and, show (7 : UInt64).toNat = 2 ^ 3 - 1 from rfl,
      Nat.and_two_pow_sub_one_eq_mod]
    simp
    omega
  rw [readByte, UInt64.toNat_toUInt8, UInt64.toNat_shiftRight, hoff,
    Nat.mod_eq_of_lt (show a.toNat % 8 * 8 < 64 by omega), Nat.shiftRight_eq_div_pow,
    Nat.mul_comm _ 8, pow_mul]
  rfl

theorem toNat_shiftRight_three (x : UInt64) : (x >>> 3).toNat = x.toNat / 8 := by
  rw [UInt64.toNat_shiftRight]
  simp [Nat.shiftRight_eq_div_pow]

/-- A fill of whole aligned words sets each byte it covers to `v` and keeps every other. -/
theorem readByte_fill {m : Memory} {addr : PhysAddr} {size : Nat} (v : UInt8)
    (h : addr &&& 7 = 0) (hs : size % 8 = 0) (hfit : addr.toNat + size ≤ 2 ^ 64) (b : PhysAddr) :
    (m.fill addr size v).readByte b =
      if addr.toNat ≤ b.toNat ∧ b.toNat < addr.toNat + size then v else m.readByte b := by
  have ha : addr.toNat % 8 = 0 := by
    have h7 := congrArg UInt64.toNat h
    rwa [UInt64.toNat_and, show (7 : UInt64).toNat = 2 ^ 3 - 1 from rfl,
      Nat.and_two_pow_sub_one_eq_mod] at h7
  have hk : (addr >>> 3).toNat + size / 8 ≤ UInt64.size := by
    rw [toNat_shiftRight_three]
    simp only [UInt64.size]
    omega
  apply UInt8.toNat_inj.1
  rw [toNat_readByte, word_fill v _ h hs hk]
  simp only [toNat_shiftRight_three]
  -- the word of `b` is covered just when `b` is, both ends being multiples of eight
  by_cases hin : addr.toNat ≤ b.toNat ∧ b.toNat < addr.toNat + size
  · rw [if_pos (by omega), if_pos hin, byte_wordOfBytes _ (by simp),
      List.getD_eq_getElem?_getD, List.getElem?_replicate, if_pos (by omega)]
    rfl
  · rw [if_neg (by omega), if_neg hin, toNat_readByte]

theorem getElem_readBytes (m : Memory) (addr : PhysAddr) (n : Nat) {i : Nat}
    (hi : i < (m.readBytes addr n).size) :
    (m.readBytes addr n)[i] = m.readByte (addr + i.toUInt64) := by
  rw [ByteArray.getElem_eq_getElem_data, ← Array.getElem_toList]
  simp [toList_readBytes]

/-- Seen through any window of bytes around it, a fill of whole aligned words sets the bytes that
`Bytes.fill` sets in the window's bytes from before, at the fill's offset in the window. -/
theorem readBytes_fill {m : Memory} {addr base : PhysAddr} {size len : Nat} (v : UInt8)
    (h : addr &&& 7 = 0) (hs : size % 8 = 0) (hbase : base.toNat ≤ addr.toNat)
    (hend : addr.toNat + size ≤ base.toNat + len) (hfit : base.toNat + len ≤ 2 ^ 64) :
    (m.fill addr size v).readBytes base len =
      Bytes.fill (m.readBytes base len) (addr.toNat - base.toNat) size v := by
  have hwin : addr.toNat - base.toNat + size ≤ (m.readBytes base len).size := by
    rw [size_readBytes]
    omega
  refine Bytes.Filled.eq ⟨by rw [size_readBytes, size_readBytes], fun i hi hb => ?_⟩
    (Bytes.filled_fill v hwin)
  rw [size_readBytes] at hb
  have hi' : (base + i.toUInt64).toNat = base.toNat + i :=
    FrameAllocator.toNat_add_toUInt64 (by simp only [UInt64.size]; omega)
  rw [getElem_readBytes, getElem_readBytes, readByte_fill v h hs (by omega), hi']
  by_cases hin : addr.toNat ≤ base.toNat + i ∧ base.toNat + i < addr.toNat + size
  · rw [if_pos hin, if_pos (by omega)]
  · rw [if_neg hin, if_neg (by omega)]

end Memory

namespace Mode

/-- The first address of a frame lies on a word. -/
theorem Sound.physAddrOf_and_seven {M : Mode} (hM : M.Sound) (ppn : PhysPage) :
    M.physAddrOf ppn &&& 7 = 0 := by
  have h8 : 2 ^ 3 ∣ ppn.toNat * 2 ^ M.frameShift :=
    Dvd.dvd.mul_left (Nat.pow_dvd_pow 2 hM.three_le_frameShift) _
  apply UInt64.toNat_inj.1
  rw [UInt64.toNat_and, show (7 : UInt64).toNat = 2 ^ 3 - 1 from rfl,
    Nat.and_two_pow_sub_one_eq_mod, physAddrOf, Word.toNat_shiftLeft, Nat.shiftLeft_eq,
    Nat.mod_mod_of_dvd _ (by norm_num : 2 ^ 3 ∣ UInt64.size), Nat.mod_eq_zero_of_dvd h8]
  rfl

end Mode

namespace Machine

variable {M : Mode} {a : AllocatorRef}

/-- A new table of a sound mode is cleared as `Bytes.fill` clears it: seen through any window of
memory around the table, the bytes after are those that setting the table's bytes of the window
to zero gives. -/
theorem newTable_clears_as_fill (hM : M.Sound) {L : Level} (hL : L.toNat ≤ M.topLevel.toNat)
    {tf : UInt64} (htf : M.tableFrames L = .ok tf) {m : Machine} {ppn : PhysPage}
    {fr : FrameAllocator} (ha : (m.cellAt a).frames.allocFrames tf tf = .ok (ppn, fr))
    {base : PhysAddr} {len : Nat} (hbase : base.toNat ≤ (M.physAddrOf ppn).toNat)
    (hend : (M.physAddrOf ppn).toNat + 2 ^ M.indexWidth L * 8 ≤ base.toNat + len)
    (hfit : base.toNat + len ≤ 2 ^ 64) :
    ∃ m', (newTable M a L).run m = .ok (.ok ⟨ppn, tf, a⟩) m' ∧
      m'.memory.readBytes base len = Bytes.fill (m.memory.readBytes base len)
        ((M.physAddrOf ppn).toNat - base.toNat) (2 ^ M.indexWidth L * 8) 0 :=
  ⟨_, newTable_run_ok hM hL htf ha, Memory.readBytes_fill 0 (hM.physAddrOf_and_seven ppn)
    (Nat.mul_mod_left _ _) hbase hend hfit⟩

end Machine

end Paging
