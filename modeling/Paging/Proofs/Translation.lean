import Paging.Proofs.TableCount
import Paging.Proofs.TableRuns
import Paging.Machine.Translate
/-!
# Reading through a space

In a space of a sound mode, whatever its tables hold, a read of `length` bytes from `va`
(`Machine.translate`) ends, changes nothing, and finds what `Mode.Walked` says:

* its fragments read from `va` on, each where the one before ended (`Mode.ReadsFrom`). A
  fragment is the part of the block of its first address's leaf from that address on
  (`Mode.Reads`): not empty, inside the block, and up to the block's end unless it is the last.
  Its bytes are where the bytes of the addresses land (`Mode.Translates`: the leaf's frame, at
  the address's offset in the leaf's block);
* it ends with no error just when the fragments cover the request, and otherwise with the error of
  the lookup of the first page they do not reach.

`Machine.readFrom` then copies the fragments' bytes into a buffer of the request's length, so
its bytes are where the request's addresses land, and it ends with no error just when every
address of the request translates (`Machine.reads_follow_translation`); an address on a page
that a request mapped does (`Machine.MapsExactly.translates`).

Two facts carry the walk. A lookup finds the same leaf for every page of the block that the leaf
maps (`Sound.lookup_congr`), since the walk reads only the page's digits above that level; and
the next address that the walk computes from page numbers is the address just past the block,
counted in bytes (`Sound.virtAddrOf_nextBlock`), wrapping at the top of the address space as the
fragments' addresses do.
-/

namespace Paging

open Run

/-- Copying the whole of `src` into `dst` at `pos` replaces the bytes there and keeps the rest. -/
theorem ByteArray.copySlice_toList (src dst : ByteArray) (pos : Nat)
    (h : pos + src.size ≤ dst.size) :
    (src.copySlice 0 dst pos (min src.size (dst.size - pos))).data.toList =
      dst.data.toList.take pos ++ src.data.toList ++ dst.data.toList.drop (pos + src.size) := by
  rw [min_eq_left (by omega), ByteArray.copySlice]
  simp only [ByteArray.size] at h ⊢
  simp only [Array.toList_append, Array.toList_extract, Nat.min_self, Nat.zero_add, Nat.sub_zero,
    List.extract_eq_take_drop, List.drop_zero]
  -- the copied bytes and the bytes after them are taken whole
  have hsrc : src.data.toList.take src.data.size = src.data.toList :=
    List.take_of_length_le (by simp)
  have htail : (dst.data.toList.drop (pos + src.data.size)).take
      (dst.data.size - (pos + src.data.size)) = dst.data.toList.drop (pos + src.data.size) :=
    List.take_of_length_le (by simp)
  rw [hsrc, htail]

namespace Memory

theorem readBytes_succ (mem : Memory) (addr : PhysAddr) (n : Nat) :
    mem.readBytes addr (n + 1) =
      (mem.readBytes addr n).push (mem.readByte (addr + n.toUInt64)) := by
  rw [readBytes, List.range_succ, List.foldl_append]
  rfl

/-- The bytes read from `addr` on are the bytes at `addr`, `addr + 1`, …, in order. -/
theorem toList_readBytes (mem : Memory) (addr : PhysAddr) (n : Nat) :
    (mem.readBytes addr n).data.toList =
      (List.range n).map fun i => mem.readByte (addr + i.toUInt64) := by
  induction n with
  | zero => rfl
  | succ n ih =>
    rw [readBytes_succ, ByteArray.data_push, Array.toList_push, ih, List.range_succ,
      List.map_append]
    rfl

theorem size_readBytes (mem : Memory) (addr : PhysAddr) (n : Nat) :
    (mem.readBytes addr n).size = n := by
  rw [← ByteArray.size_data, ← Array.length_toList, toList_readBytes, List.length_map,
    List.length_range]

end Memory

/-! ## Blocks of bytes -/

namespace Word

/-- A block of `2 ^ k` bytes that holds a word lies below `2 ^ 64`: blocks never wrap. -/
theorem block_end_le (a : UInt64) {k : Nat} (hk : k ≤ 64) :
    2 ^ k * (a.toNat / 2 ^ k) + 2 ^ k ≤ 2 ^ 64 := by
  have hsplit : 2 ^ 64 = 2 ^ (64 - k) * 2 ^ k := by rw [← pow_add]; congr 1; omega
  have hq : a.toNat / 2 ^ k < 2 ^ (64 - k) :=
    (Nat.div_lt_iff_lt_mul (Nat.two_pow_pos k)).2 (hsplit ▸ a.toNat_lt)
  calc 2 ^ k * (a.toNat / 2 ^ k) + 2 ^ k = 2 ^ k * (a.toNat / 2 ^ k + 1) := by ring
    _ ≤ 2 ^ k * 2 ^ (64 - k) := Nat.mul_le_mul_left _ hq
    _ = 2 ^ 64 := by rw [hsplit, Nat.mul_comm]

/-- Stepping inside the block of `2 ^ k` bytes that holds `a` does not wrap. -/
theorem toNat_add_in_block (a : UInt64) {k j : Nat} (hk : k ≤ 64)
    (hj : a.toNat % 2 ^ k + j < 2 ^ k) :
    (a + j.toUInt64).toNat = a.toNat + j := by
  have hend := block_end_le a hk
  have hdm := Nat.div_add_mod a.toNat (2 ^ k)
  have hj64 : j < 2 ^ 64 := by omega
  rw [UInt64.toNat_add, Nat.toUInt64_eq, UInt64.toNat_ofNat', Nat.mod_eq_of_lt hj64]
  exact Nat.mod_eq_of_lt (by omega)

/-- A step inside the block of `2 ^ k` bytes keeps the block and moves the offset in it. -/
theorem div_mod_add_in_block (a : UInt64) {k j : Nat} (hk : k ≤ 64)
    (hj : a.toNat % 2 ^ k + j < 2 ^ k) :
    (a + j.toUInt64).toNat / 2 ^ k = a.toNat / 2 ^ k ∧
      (a + j.toUInt64).toNat % 2 ^ k = a.toNat % 2 ^ k + j := by
  have hsum : (a + j.toUInt64).toNat = (a.toNat % 2 ^ k + j) + 2 ^ k * (a.toNat / 2 ^ k) := by
    rw [toNat_add_in_block a hk hj]
    have := Nat.div_add_mod a.toNat (2 ^ k)
    omega
  rw [hsum, Nat.add_mul_div_left _ _ (Nat.two_pow_pos k), Nat.div_eq_of_lt hj,
    Nat.add_mul_mod_self_left, Nat.mod_eq_of_lt hj]
  exact ⟨Nat.zero_add _, rfl⟩

end Word

namespace Mode

variable {M : Mode}

/-- The bits of a byte offset inside a block of the level. -/
def pageBits (M : Mode) (L : Level) : Nat := M.levelShift L + M.frameShift

theorem Sound.pageSize_eq (hM : M.Sound) {L : Level} (hL : L.toNat ≤ M.topLevel.toNat) :
    M.pageSize L = .ok (Word.pow2 (M.pageBits L)) := by
  have hlt := hM.levelShift_add_lt hL
  simp only [pageSize, hM.layout_eq hL, bind, Except.bind, pure, Except.pure, Layout.bytes]
  congr 1
  apply UInt64.toNat_inj.1
  rw [Word.toNat_shiftLeft, Word.toNat_pow2 (by omega), pageBits, Word.toNat_pow2 hlt,
    Nat.shiftLeft_eq, ← pow_add, Nat.mod_eq_of_lt (Nat.pow_lt_pow_right (by norm_num) hlt)]

theorem Sound.pageOffset_eq (hM : M.Sound) {L : Level} (hL : L.toNat ≤ M.topLevel.toNat)
    (a : VirtAddr) : M.pageOffset a L = .ok (a &&& Word.lowMask (M.pageBits L)) := by
  simp [pageOffset, hM.pageSize_eq hL, Word.lowMask, bind, Except.bind, pure, Except.pure]

/-- The block of an address at a level is the block of its page. -/
theorem toNat_vpnOf_div (a : VirtAddr) (L : Level) :
    (M.vpnOf a).toNat / 2 ^ M.levelShift L = a.toNat / 2 ^ M.pageBits L := by
  rw [vpnOf, Word.toNat_shiftRight, Nat.shiftRight_eq_div_pow, Nat.div_div_eq_div_mul, ← pow_add,
    pageBits, Nat.add_comm]

/-- The bytes from `a` to the end of its block of level `L`. -/
theorem Sound.toNat_pow2_sub_offset (hM : M.Sound) {L : Level} (hL : L.toNat ≤ M.topLevel.toNat)
    (a : VirtAddr) :
    (Word.pow2 (M.pageBits L) - (a &&& Word.lowMask (M.pageBits L))).toNat =
      2 ^ M.pageBits L - a.toNat % 2 ^ M.pageBits L := by
  have hbits : M.pageBits L < 64 := hM.levelShift_add_lt hL
  have hoff := Word.toNat_and_lowMask a hbits
  have hle : (a &&& Word.lowMask (M.pageBits L)).toNat ≤ (Word.pow2 (M.pageBits L)).toNat := by
    rw [hoff, Word.toNat_pow2 hbits]
    exact (Nat.mod_lt a.toNat (Nat.two_pow_pos (M.pageBits L))).le
  rw [UInt64.toNat_sub_of_le _ _ (UInt64.le_iff_toNat_le.2 hle), hoff, Word.toNat_pow2 hbits]

/-- The first address of the next block of the level, reached from the page of `a`, lies as
many bytes after `a` as `a`'s block has left; the sum wraps at the top of the address space. -/
theorem Sound.virtAddrOf_nextBlock (hM : M.Sound) {L : Level} (hL : L.toNat ≤ M.topLevel.toNat)
    (a : VirtAddr) :
    M.virtAddrOf (Word.alignDown (M.vpnOf a) (Word.pow2 (M.levelShift L)) +
        Word.pow2 (M.levelShift L)) =
      a + (Word.pow2 (M.pageBits L) - (a &&& Word.lowMask (M.pageBits L))) := by
  have hlt := hM.levelShift_add_lt hL
  have hmod := Nat.mod_lt a.toNat (Nat.two_pow_pos (M.pageBits L))
  have hdm := Nat.div_add_mod a.toNat (2 ^ M.pageBits L)
  have hmul : (2 ^ M.levelShift L * (a.toNat / 2 ^ M.pageBits L) + 2 ^ M.levelShift L) *
      2 ^ M.frameShift = 2 ^ M.pageBits L * (a.toNat / 2 ^ M.pageBits L) + 2 ^ M.pageBits L := by
    rw [pageBits, pow_add]
    ring
  apply UInt64.toNat_inj.1
  rw [virtAddrOf, Word.toNat_shiftLeft, UInt64.toNat_add, Word.toNat_alignDown_pow2 _ (by omega),
    Word.toNat_pow2 (by omega), toNat_vpnOf_div, Nat.shiftLeft_eq, Nat.mod_mul_mod, hmul,
    UInt64.toNat_add, hM.toNat_pow2_sub_offset hL]
  show _ % 2 ^ 64 = _ % 2 ^ 64
  omega

/-! ## A lookup within a block -/

section Lookup

variable {mem : Memory} {root : PhysPage} {e : Entry} {L : Level}

/-- A walk that finds a leaf finds it at one of the levels it walks. -/
theorem walk_level_mem {v : VirtPage} :
    ∀ {levels : List Level} {t : PhysPage}, M.walk mem v levels t = .ok (e, L) → L ∈ levels
  | [], _, h => by simp [walk] at h
  | L' :: rest, t, h => by
    rw [walk] at h
    split_ifs at h
    · exact List.mem_cons.2 (.inl (Prod.mk.inj (Except.ok.inj h)).2.symm)
    · exact List.mem_cons_of_mem _ (walk_level_mem h)

/-- A lookup that finds a leaf finds it at a level of the mode. -/
theorem lookup_level_le {v : VirtPage} (h : M.lookup mem root v = .ok (e, L)) :
    L.toNat ≤ M.topLevel.toNat :=
  Level.le_of_mem_downFrom _ le_rfl (walk_level_mem h)

/-- Two pages of one block of a level have the same index in the tables of that level and of
every level above. -/
theorem Sound.slotIndex_eq_of_div_eq (hM : M.Sound) {v w : VirtPage} {L' : Level}
    (hL' : L'.toNat ≤ M.topLevel.toNat) (hle : L.toNat ≤ L'.toNat)
    (h : v.toNat / 2 ^ M.levelShift L = w.toNat / 2 ^ M.levelShift L) :
    M.slotIndex v L' = M.slotIndex w L' := by
  have hs : M.levelShift L' = M.levelShift L + (M.levelShift L' - M.levelShift L) := by
    have := Nat.mul_le_mul_right M.entriesShift hle
    simp only [levelShift]
    omega
  apply UInt64.toNat_inj.1
  rw [hM.toNat_slotIndex v hL', hM.toNat_slotIndex w hL', hs, pow_add, ← Nat.div_div_eq_div_mul,
    ← Nat.div_div_eq_div_mul, h]

/-- A walk down falling levels reads the same entries for two pages of the block of the leaf it
finds, so it finds that leaf for both. -/
theorem Sound.walk_congr (hM : M.Sound) {v w : VirtPage}
    (hdiv : v.toNat / 2 ^ M.levelShift L = w.toNat / 2 ^ M.levelShift L) :
    ∀ {levels : List Level} {t : PhysPage}, levels.Pairwise (fun a b => b.toNat < a.toNat) →
      (∀ L' ∈ levels, L'.toNat ≤ M.topLevel.toNat) →
      M.walk mem v levels t = .ok (e, L) → M.walk mem w levels t = .ok (e, L)
  | [], _, _, _, h => h
  | L' :: rest, t, hpair, htop, h => by
    -- the leaf lies at this level or below it, so the page's index here is the same
    have hle : L.toNat ≤ L'.toNat := by
      rcases List.mem_cons.1 (walk_level_mem h) with rfl | hrest
      · exact le_rfl
      · exact (List.rel_of_pairwise_cons hpair hrest).le
    have hslot := hM.slotIndex_eq_of_div_eq (htop L' List.mem_cons_self) hle hdiv
    rw [walk] at h ⊢
    rw [← hslot]
    split_ifs at h ⊢
    · exact h
    · exact hM.walk_congr hdiv (List.pairwise_cons.1 hpair).2
        (fun L'' h'' => htop L'' (List.mem_cons_of_mem _ h'')) h

/-- A lookup finds the same leaf for every page of the block of the level that the leaf maps. -/
theorem Sound.lookup_congr (hM : M.Sound) {v w : VirtPage} (h : M.lookup mem root v = .ok (e, L))
    (hdiv : v.toNat / 2 ^ M.levelShift L = w.toNat / 2 ^ M.levelShift L) :
    M.lookup mem root w = .ok (e, L) :=
  hM.walk_congr hdiv (Level.pairwise_downFrom _ le_rfl)
    (fun _ hL' => Level.le_of_mem_downFrom _ le_rfl hL') h

/-- The address `a` lands at `pa` in the space whose root table is at `root`: the lookup of
`a`'s page finds a leaf, and `pa` lies as far into the leaf's frame as `a` lies into the block
that the leaf maps. -/
def Translates (M : Mode) (mem : Memory) (root : PhysPage) (a : VirtAddr) (pa : PhysAddr) :
    Prop :=
  ∃ e L o, M.lookup mem root (M.vpnOf a) = .ok (e, L) ∧ M.pageOffset a L = .ok o ∧
    pa = M.physAddrOf e.ppn + o

/-- The bytes from `a` to the end of the block of `a`'s leaf land one after another in the
leaf's frame. -/
theorem Sound.translates_in_block (hM : M.Sound) {a : VirtAddr}
    (h : M.lookup mem root (M.vpnOf a) = .ok (e, L)) {j : Nat}
    (hj : a.toNat % 2 ^ M.pageBits L + j < 2 ^ M.pageBits L) :
    M.Translates mem root (a + j.toUInt64)
      (M.physAddrOf e.ppn + (a &&& Word.lowMask (M.pageBits L)) + j.toUInt64) := by
  have hL := lookup_level_le h
  have hbits : M.pageBits L < 64 := hM.levelShift_add_lt hL
  obtain ⟨hdiv, hmod⟩ := Word.div_mod_add_in_block a (Nat.le_of_lt hbits) hj
  refine ⟨e, L, _, hM.lookup_congr h ?_, hM.pageOffset_eq hL _, ?_⟩
  · rw [toNat_vpnOf_div, toNat_vpnOf_div, hdiv]
  · rw [UInt64.add_assoc]
    congr 1
    apply UInt64.toNat_inj.1
    rw [Word.toNat_and_lowMask _ hbits, hmod, UInt64.toNat_add, Word.toNat_and_lowMask _ hbits,
      Nat.toUInt64_eq, UInt64.toNat_ofNat']
    have : 2 ^ M.pageBits L < 2 ^ 64 := Nat.pow_lt_pow_right (by norm_num) hbits
    rw [Nat.mod_eq_of_lt (show j < 2 ^ 64 by omega)]
    exact Nat.mod_eq_of_lt (by omega)

end Lookup

end Mode

/-! ## The fragments of a read -/

/-- The bytes that the fragments cover. -/
def Fragment.total (frags : List Fragment) : Nat :=
  (frags.map fun f => f.length.toNat).sum

@[simp] theorem Fragment.total_nil : Fragment.total [] = 0 := rfl

@[simp] theorem Fragment.total_cons (f : Fragment) (frags : List Fragment) :
    Fragment.total (f :: frags) = f.length.toNat + Fragment.total frags := by
  simp [Fragment.total]

namespace Mode

/-- The fragment `f` is the part of the block of `a`'s leaf that a read from `a` takes: the leaf
maps `a`, the fragment reads the leaf's frame from `a`'s offset in the block, is not empty and
ends inside the block, at its end when the read goes on (`more`); its bytes are where the bytes
from `a` on land. -/
structure Reads (M : Mode) (mem : Memory) (root : PhysPage) (a : VirtAddr) (f : Fragment)
    (more : Bool) : Prop where
  leaf : ∃ e L size, M.lookup mem root (M.vpnOf a) = .ok (e, L) ∧ M.pageSize L = .ok size ∧
    f.ppn = e.ppn ∧ M.pageOffset a L = .ok f.offset ∧
    f.offset.toNat + f.length.toNat ≤ size.toNat ∧
    (more = true → f.offset.toNat + f.length.toNat = size.toNat)
  length_pos : 0 < f.length.toNat
  translates : ∀ j < f.length.toNat,
    M.Translates mem root (a + j.toUInt64) (Machine.Fragment.start M f + j.toUInt64)

/-- The fragments read from `a` on, one after another: each starts at the address where the one
before it ended. -/
def ReadsFrom (M : Mode) (mem : Memory) (root : PhysPage) : VirtAddr → List Fragment → Prop
  | _, [] => True
  | a, f :: rest =>
    M.Reads mem root a f (!rest.isEmpty) ∧ M.ReadsFrom mem root (a + f.length) rest

/-- What a read of `length` bytes from `va` found: fragments that read from `va` on, as long as
the request when no error ended the read; otherwise shorter, and ended by the error of the lookup
of the first page they do not reach. -/
structure Walked (M : Mode) (mem : Memory) (root : PhysPage) (va : VirtAddr) (length : UInt64)
    (frags : List Fragment) (err : Option Fault) : Prop where
  reads : M.ReadsFrom mem root va frags
  total_le : Fragment.total frags ≤ length.toNat
  none_iff : err = none ↔ Fragment.total frags = length.toNat
  lookup_eq : ∀ f, err = some f →
    M.lookup mem root (M.vpnOf (va + (Fragment.total frags).toUInt64)) = .error f

variable {M : Mode} {mem : Memory} {root : PhysPage} {e : Entry} {L : Level}

/-- The part of the block of `a`'s leaf from `a` to at most the end of the block is what a read
from `a` takes. -/
theorem Sound.reads_of_block (hM : M.Sound) {a : VirtAddr} (h : M.lookup mem root (M.vpnOf a) = .ok (e, L))
    {len : UInt64} (hpos : 0 < len.toNat)
    (hend : a.toNat % 2 ^ M.pageBits L + len.toNat ≤ 2 ^ M.pageBits L) (more : Bool)
    (hmore : more = true → a.toNat % 2 ^ M.pageBits L + len.toNat = 2 ^ M.pageBits L) :
    M.Reads mem root a ⟨e.ppn, a &&& Word.lowMask (M.pageBits L), len⟩ more := by
  have hL := lookup_level_le h
  have hbits : M.pageBits L < 64 := hM.levelShift_add_lt hL
  have hoff := Word.toNat_and_lowMask a hbits
  refine ⟨⟨e, L, _, h, hM.pageSize_eq hL, rfl, hM.pageOffset_eq hL a, ?_, ?_⟩, hpos, ?_⟩
  · rw [hoff, Word.toNat_pow2 hbits]
    exact hend
  · rw [hoff, Word.toNat_pow2 hbits]
    exact hmore
  · intro j hj
    change j < len.toNat at hj
    exact hM.translates_in_block h (by omega)

/-- A read that asked for nothing found nothing. -/
theorem walked_nil (va : VirtAddr) : M.Walked mem root va 0 [] none :=
  ⟨trivial, Nat.zero_le _, by simp, by simp⟩

/-- A read whose first page does not translate ends at once with the lookup's error. -/
theorem walked_error {va : VirtAddr} {length : UInt64} {f : Fault} (hlen : 0 < length.toNat)
    (h : M.lookup mem root (M.vpnOf va) = .error f) : M.Walked mem root va length [] (some f) :=
  ⟨trivial, Nat.zero_le _, by simp; omega, by simpa using h⟩

/-- A read that its first fragment finishes. -/
theorem walked_last {va : VirtAddr} {f : Fragment} (hf : M.Reads mem root va f false) :
    M.Walked mem root va f.length [f] none :=
  ⟨⟨hf, trivial⟩, by simp, by simp, by simp⟩

/-- A first fragment that ends its block, followed by the read of the rest from the next
block. -/
theorem walked_cons {va : VirtAddr} {length : UInt64} {f : Fragment} {rest : List Fragment}
    {err : Option Fault} (hf : M.Reads mem root va f (!rest.isEmpty))
    (hle : f.length.toNat ≤ length.toNat)
    (hrest : M.Walked mem root (va + f.length) (length - f.length) rest err) :
    M.Walked mem root va length (f :: rest) err := by
  have hsub : (length - f.length).toNat = length.toNat - f.length.toNat :=
    UInt64.toNat_sub_of_le _ _ (UInt64.le_iff_toNat_le.2 hle)
  have htotal := hrest.total_le
  refine ⟨⟨hf, hrest.reads⟩, ?_, ?_, ?_⟩
  · simp only [Fragment.total_cons]
    omega
  · rw [hrest.none_iff, Fragment.total_cons]
    omega
  · intro g hg
    rw [Fragment.total_cons, Nat.toUInt64_eq, UInt64.ofNat_add, UInt64.ofNat_toNat,
      ← UInt64.add_assoc, ← Nat.toUInt64_eq]
    exact hrest.lookup_eq g hg

end Mode

namespace Machine

variable {M : Mode} {r : SpaceRef} {m : Machine} {b : FrameBox}

/-! ## The walk -/

/-- A read of nothing finds nothing, whatever its fuel. -/
theorem fragmentsFrom_run_zero (fuel : Nat) (va : VirtAddr) :
    (fragmentsFrom r M fuel va 0).run m = .ok ([], none) m := by
  cases fuel <;> rfl

section Walk

variable (hM : M.Sound) (hroot : (m.spaceAt r).root = some b) (hmode : (m.spaceAt r).mode = M)
include hM hroot hmode

/-- The read of `length` bytes from `va` with as much fuel as bytes: it changes nothing and finds
what `Mode.Walked` says. Each step takes at least one byte, which is why the fuel suffices. -/
theorem fragmentsFrom_run : ∀ (fuel : Nat) (va length : UInt64), length.toNat ≤ fuel →
    ∃ frags err, (fragmentsFrom r M fuel va length).run m = .ok (frags, err) m ∧
      M.Walked m.memory b.ppn va length frags err
  | 0, va, length, hfuel => by
    have : length = 0 := UInt64.toNat_inj.1 (by simp; omega)
    subst this
    exact ⟨[], none, rfl, Mode.walked_nil va⟩
  | fuel + 1, va, length, hfuel => by
    by_cases h0 : length = 0
    · subst h0
      exact ⟨[], none, fragmentsFrom_run_zero _ _, Mode.walked_nil va⟩
    have hpos : 0 < length.toNat := by
      rcases Nat.eq_zero_or_pos length.toNat with h | h
      · exact absurd (UInt64.toNat_inj.1 (by simpa using h)) h0
      · exact h
    rw [fragmentsFrom, if_neg h0, bind_run_ok (findEntry_run_of_root hM hroot hmode _)]
    cases hlook : M.lookup m.memory b.ppn (M.vpnOf va) with
    | error f => exact ⟨[], some f, rfl, Mode.walked_error hpos hlook⟩
    | ok eL =>
      obtain ⟨e, L⟩ := eL
      have hL := Mode.lookup_level_le hlook
      dsimp only
      rw [hM.pageOffset_eq hL, ofHalting_ok, pure_bind, hM.pageSize_eq hL, ofHalting_ok,
        pure_bind, hM.nextPageByLevel_eq_alignDown hL, ofHalting_ok, pure_bind,
        hM.virtAddrOf_nextBlock hL]
      -- the bytes left in the block of `va`
      have hoffP := Nat.mod_lt va.toNat (Nat.two_pow_pos (M.pageBits L))
      have hleft := hM.toNat_pow2_sub_offset hL va
      by_cases hfits : Word.pow2 (M.pageBits L) - (va &&& Word.lowMask (M.pageBits L)) > length
      · -- the request ends inside the block
        rw [if_pos hfits, UInt64.sub_self, bind_run_ok (fragmentsFrom_run_zero _ _)]
        have : length.toNat < 2 ^ M.pageBits L - va.toNat % 2 ^ M.pageBits L := by
          rw [← hleft]
          exact UInt64.lt_iff_toNat_lt.1 hfits
        exact ⟨_, _, rfl, Mode.walked_last (hM.reads_of_block hlook hpos (by omega) false (by simp))⟩
      · -- the fragment runs to the end of the block, and the read goes on from the next one
        rw [if_neg hfits]
        have hle : 2 ^ M.pageBits L - va.toNat % 2 ^ M.pageBits L ≤ length.toNat := by
          rw [← hleft]
          exact UInt64.le_iff_toNat_le.1 (UInt64.not_lt.1 hfits)
        have hle' : (Word.pow2 (M.pageBits L) - (va &&& Word.lowMask (M.pageBits L))).toNat ≤
            length.toNat := hleft ▸ hle
        have hsub := UInt64.toNat_sub_of_le length _ (UInt64.le_iff_toNat_le.2 hle')
        obtain ⟨rest, err, hrun, hw⟩ := fragmentsFrom_run fuel
          (va + (Word.pow2 (M.pageBits L) - (va &&& Word.lowMask (M.pageBits L))))
          (length - (Word.pow2 (M.pageBits L) - (va &&& Word.lowMask (M.pageBits L))))
          (by omega)
        rw [bind_run_ok hrun]
        exact ⟨_, _, rfl, Mode.walked_cons (hM.reads_of_block hlook (by omega) (by omega) _ (fun _ => by
          omega)) hle' hw⟩

/-- The fragments found by a read of `length` bytes from `va` in the space: the read changes
nothing and finds what `Mode.Walked` says. -/
theorem translate_run (va : VirtAddr) (length : UInt64) :
    ∃ frags err, (translate r va length).run m = .ok (frags, err) m ∧
      M.Walked m.memory b.ppn va length frags err := by
  rw [translate, bind_run_ok (space_run m r), hmode]
  exact fragmentsFrom_run hM hroot hmode _ va length le_rfl

end Walk

/-! ## Copying the fragments -/

/-- One step of `copyFragments`: the bytes of the fragment go to the position reached, which
moves past them. -/
def copyStep (M : Mode) (mem : Memory) (acc : ByteArray × Nat) (f : Fragment) : ByteArray × Nat :=
  let bytes := mem.readBytes (Fragment.start M f) f.length.toNat
  (bytes.copySlice 0 acc.1 acc.2 (min bytes.size (acc.1.size - acc.2)), acc.2 + f.length.toNat)

theorem copyFragments_eq (M : Mode) (mem : Memory) (dst : ByteArray) (frags : List Fragment) :
    copyFragments M mem dst frags = (frags.foldl (copyStep M mem) (dst, 0)).1 :=
  rfl

/-- The bytes of the fragments, in order, as the memory holds them. -/
def fragmentBytes (M : Mode) (mem : Memory) (frags : List Fragment) : List UInt8 :=
  frags.flatMap fun f => (mem.readBytes (Fragment.start M f) f.length.toNat).data.toList

@[simp] theorem fragmentBytes_nil (M : Mode) (mem : Memory) : fragmentBytes M mem [] = [] := rfl

@[simp] theorem fragmentBytes_cons (M : Mode) (mem : Memory) (f : Fragment) (rest : List Fragment) :
    fragmentBytes M mem (f :: rest) =
      (mem.readBytes (Fragment.start M f) f.length.toNat).data.toList ++ fragmentBytes M mem rest :=
  rfl

theorem length_fragmentBytes (M : Mode) (mem : Memory) :
    ∀ frags : List Fragment, (fragmentBytes M mem frags).length = Fragment.total frags
  | [] => rfl
  | f :: rest => by
    rw [fragmentBytes_cons, List.length_append, Memory.toList_readBytes, List.length_map,
      List.length_range, length_fragmentBytes M mem rest, Fragment.total_cons]

/-- The copy from `pos` on writes the bytes of the fragments one after another and keeps the
bytes before and after them. -/
theorem copyStep_foldl (M : Mode) (mem : Memory) :
    ∀ (frags : List Fragment) (buf : ByteArray) (pos : Nat),
      pos + Fragment.total frags ≤ buf.size →
      (frags.foldl (copyStep M mem) (buf, pos)).1.data.toList =
        buf.data.toList.take pos ++ fragmentBytes M mem frags ++
          buf.data.toList.drop (pos + Fragment.total frags)
  | [], buf, pos, _ => by simp
  | f :: rest, buf, pos, h => by
    have hbytes := Memory.size_readBytes mem (Fragment.start M f) f.length.toNat
    rw [Fragment.total_cons] at h
    have hstep := ByteArray.copySlice_toList (mem.readBytes (Fragment.start M f) f.length.toNat) buf
      pos (by omega)
    -- after the first fragment the buffer is `A ++ D`, where `A` ends with the fragment's bytes
    have hL1 : (copyStep M mem (buf, pos) f).1.data.toList =
        (buf.data.toList.take pos ++
          (mem.readBytes (Fragment.start M f) f.length.toNat).data.toList) ++
          buf.data.toList.drop (pos + f.length.toNat) := by
      simp only [copyStep]
      rw [hstep, hbytes]
    have hA : (buf.data.toList.take pos ++
        (mem.readBytes (Fragment.start M f) f.length.toNat).data.toList).length =
          pos + f.length.toNat := by
      rw [List.length_append, List.length_take, Array.length_toList, ByteArray.size_data,
        Array.length_toList, ByteArray.size_data, hbytes]
      omega
    have hsize : (copyStep M mem (buf, pos) f).1.size = buf.size := by
      rw [← ByteArray.size_data, ← Array.length_toList, hL1, List.length_append, hA,
        List.length_drop, Array.length_toList, ByteArray.size_data]
      omega
    rw [List.foldl_cons, show copyStep M mem (buf, pos) f =
      ((copyStep M mem (buf, pos) f).1, pos + f.length.toNat) from rfl,
      copyStep_foldl M mem rest _ _ (by omega), hL1, List.take_left' hA, List.drop_append,
      List.drop_eq_nil_of_le (by rw [hA]; omega), List.nil_append, hA, List.drop_drop,
      fragmentBytes_cons, Fragment.total_cons]
    have hend : pos + f.length.toNat +
        (pos + f.length.toNat + Fragment.total rest - (pos + f.length.toNat)) =
          pos + (f.length.toNat + Fragment.total rest) := by omega
    rw [hend]
    simp only [List.append_assoc]

/-- Copying into a buffer long enough puts the bytes of the fragments at its start and keeps the
rest. -/
theorem toList_copyFragments (M : Mode) (mem : Memory) {dst : ByteArray} {frags : List Fragment}
    (h : Fragment.total frags ≤ dst.size) :
    (copyFragments M mem dst frags).data.toList =
      fragmentBytes M mem frags ++ dst.data.toList.drop (Fragment.total frags) := by
  rw [copyFragments_eq, copyStep_foldl M mem frags dst 0 (by omega), List.take_zero,
    List.nil_append, Nat.zero_add]

/-- The cleared buffer that a read copies into. -/
theorem size_cleared (n : Nat) : ({ data := Array.replicate n 0 } : ByteArray).size = n :=
  Array.size_replicate

/-- The copy keeps the length of a buffer long enough for the fragments. -/
theorem size_copyFragments (M : Mode) (mem : Memory) {dst : ByteArray} {frags : List Fragment}
    (h : Fragment.total frags ≤ dst.size) : (copyFragments M mem dst frags).size = dst.size := by
  rw [← ByteArray.size_data, ← Array.length_toList, toList_copyFragments M mem h,
    List.length_append, length_fragmentBytes, List.length_drop, Array.length_toList,
    ByteArray.size_data]
  omega

end Machine

namespace Mode

open Machine

/-- The bytes of the fragments of a read from `va` are the bytes where `va`, `va + 1`, … land. -/
theorem ReadsFrom.getElem_fragmentBytes {M : Mode} {mem : Memory} {root : PhysPage} :
    ∀ {va : VirtAddr} {frags : List Fragment}, M.ReadsFrom mem root va frags →
      ∀ j (hj : j < (fragmentBytes M mem frags).length),
        ∃ pa, M.Translates mem root (va + j.toUInt64) pa ∧
          (fragmentBytes M mem frags)[j] = mem.readByte pa
  | _, [], _, j, hj => absurd hj (by simp)
  | va, f :: rest, hp, j, hj => by
    have hlen : ((mem.readBytes (Fragment.start M f) f.length.toNat).data.toList).length =
        f.length.toNat := by
      rw [Memory.toList_readBytes, List.length_map, List.length_range]
    simp only [fragmentBytes_cons] at hj ⊢
    by_cases hin : j < f.length.toNat
    · -- a byte of the first fragment
      refine ⟨_, hp.1.translates j hin, ?_⟩
      rw [List.getElem_append_left (by omega)]
      simp [Memory.toList_readBytes]
    · -- a byte of a later fragment, `j - f.length` bytes after the first one ends
      rw [List.getElem_append_right (by omega)]
      obtain ⟨pa, htr, hbyte⟩ := ReadsFrom.getElem_fragmentBytes hp.2 (j - f.length.toNat)
        (by rw [List.length_append, hlen] at hj; omega)
      refine ⟨pa, ?_, by rw [← hbyte]; congr 1; omega⟩
      have hj' : j.toUInt64 = f.length + (j - f.length.toNat).toUInt64 := by
        apply UInt64.toNat_inj.1
        rw [UInt64.toNat_add, Nat.toUInt64_eq, Nat.toUInt64_eq, UInt64.toNat_ofNat',
          UInt64.toNat_ofNat']
        omega
      rw [hj', ← UInt64.add_assoc]
      exact htr

/-- A read reaches every address of the request just when it ends with no error. -/
theorem Walked.none_iff_translates {M : Mode} {mem : Memory} {root : PhysPage} {va : VirtAddr}
    {len : UInt64} {frags : List Fragment} {err : Option Fault}
    (hw : M.Walked mem root va len frags err) :
    err = none ↔ ∀ j < len.toNat, ∃ pa, M.Translates mem root (va + j.toUInt64) pa := by
  have hlen := length_fragmentBytes M mem frags
  constructor
  · intro hnone j hj
    have htotal := hw.none_iff.1 hnone
    obtain ⟨pa, htr, -⟩ := hw.reads.getElem_fragmentBytes j (by omega)
    exact ⟨pa, htr⟩
  · intro hall
    cases err with
    | none => rfl
    | some f =>
      -- the first page not reached is inside the request, and its lookup failed
      have hshort : Fragment.total frags < len.toNat := by
        have := hw.total_le
        have := hw.none_iff
        simp only [reduceCtorEq, false_iff] at this
        omega
      obtain ⟨pa, e, L, o, hlook, -⟩ := hall _ hshort
      rw [hw.lookup_eq f rfl] at hlook
      cases hlook

/-- The bytes that the read copies from the fragments of a read that ended with no error are the
bytes where the addresses of the request land. -/
theorem Walked.getElem_copyFragments {M : Mode} {mem : Memory} {root : PhysPage}
    {va : VirtAddr} {len : UInt64} {frags : List Fragment}
    (hw : M.Walked mem root va len frags none) (j : Nat)
    (hj : j < (copyFragments M mem ⟨Array.replicate len.toNat 0⟩ frags).size) :
    ∃ pa, M.Translates mem root (va + j.toUInt64) pa ∧
      (copyFragments M mem ⟨Array.replicate len.toNat 0⟩ frags)[j] = mem.readByte pa := by
  have htotal := hw.none_iff.1 rfl
  have hlen := length_fragmentBytes M mem frags
  have hfits :
      Fragment.total frags ≤ ({ data := Array.replicate len.toNat 0 } : ByteArray).size := by
    rw [size_cleared, htotal]
  have hlist := toList_copyFragments M mem hfits
  have hsize : (copyFragments M mem ⟨Array.replicate len.toNat 0⟩ frags).size = len.toNat :=
    (size_copyFragments M mem hfits).trans (size_cleared _)
  obtain ⟨pa, htr, hbyte⟩ := hw.reads.getElem_fragmentBytes j (by omega)
  refine ⟨pa, htr, ?_⟩
  rw [ByteArray.getElem_eq_getElem_data, ← Array.getElem_toList, ← hbyte]
  simp only [hlist]
  exact List.getElem_append_left _

end Mode

namespace Machine

variable {M : Mode} {r : SpaceRef} {m : Machine} {b : FrameBox}

/-! ## Reading -/

section Read

variable (hM : M.Sound) (hroot : (m.spaceAt r).root = some b) (hmode : (m.spaceAt r).mode = M)
include hM hroot hmode

/-- Reading `len` bytes copies the bytes of the fragments of the read into a cleared buffer. -/
theorem readFrom_run (va : VirtAddr) (len : UInt64) :
    ∃ frags err, (readFrom r va len.toNat).run m =
        .ok (copyFragments M m.memory ⟨Array.replicate len.toNat 0⟩ frags, err) m ∧
      M.Walked m.memory b.ppn va len frags err := by
  obtain ⟨frags, err, hrun, hw⟩ := translate_run hM hroot hmode va len
  refine ⟨frags, err, ?_, hw⟩
  rw [readFrom, Nat.toUInt64_eq, UInt64.ofNat_toNat, bind_run_ok hrun]
  dsimp only
  rw [bind_run_ok (space_run m r), hmode]
  rfl

/-- Reading `len` bytes from `va` in a live space of a sound mode, whatever its tables hold. The
walk of the read changes nothing, ends, and finds what `Mode.Walked` says: fragments that read
from `va` on, each the part of the block of its first address's leaf from there, not empty, inside
the block and up to its end unless it is the last, with its bytes where the bytes of the addresses
land; no error just when they cover the request, and otherwise the lookup error of the first page
they do not reach. The read then gives `len` bytes, has no error just when every address of the
request translates, and in that case gives for each address the byte of memory where it lands. -/
theorem reads_follow_translation (va : VirtAddr) (len : UInt64) :
    (∃ frags err, (translate r va len).run m = .ok (frags, err) m ∧
      M.Walked m.memory b.ppn va len frags err) ∧
    ∃ data err, (readFrom r va len.toNat).run m = .ok (data, err) m ∧ data.size = len.toNat ∧
      (err = none ↔
        ∀ j < len.toNat, ∃ pa, M.Translates m.memory b.ppn (va + j.toUInt64) pa) ∧
      (err = none → ∀ j (hj : j < data.size),
        ∃ pa, M.Translates m.memory b.ppn (va + j.toUInt64) pa ∧
          data[j] = m.memory.readByte pa) := by
  obtain ⟨frags, err, hrun, hw⟩ := readFrom_run hM hroot hmode va len
  refine ⟨translate_run hM hroot hmode va len, _, err, hrun, ?_, hw.none_iff_translates, ?_⟩
  · exact (size_copyFragments M m.memory (by rw [size_cleared]; exact hw.total_le)).trans
      (size_cleared _)
  · rintro rfl j hj
    exact hw.getElem_copyFragments j hj

/-- An address on a page that the space maps exactly as a request asks lands somewhere. -/
theorem MapsExactly.translates {vpn : VirtPage} {ppn : PhysPage} {n : UInt64} {flags : Flags}
    (h : MapsExactly M m r vpn ppn n flags) {va : VirtAddr} (hlim : M.vpnOf va < M.vpnLimit)
    (hin : vpn.toNat ≤ (M.vpnOf va).toNat ∧ (M.vpnOf va).toNat < vpn.toNat + n.toNat) :
    ∃ pa, M.Translates m.memory b.ppn va pa := by
  obtain ⟨L, hL, hfind⟩ := (h _ hlim).1 hin
  rw [findEntry_run_of_root hM hroot hmode] at hfind
  injection hfind with hlk
  exact ⟨_, _, L, _, hlk, hM.pageOffset_eq hL va, rfl⟩

end Read

/-- In an `sv39` space made over an allocator of 256 frames, after the request that maps the
pages `[1, 3)` onto the frames from `0x80100`, a read of sixteen bytes across the boundary of the
two pages ends with no error, each of its bytes read where its address lands. -/
theorem reads_follow_translation_across_pages :
    ∃ m' m'', (newSpace .sv39 ⟨0⟩).run
        { allocators := #[⟨FrameAllocator.new 0x80000 0x80100, #[]⟩] } = .ok (.ok ⟨0⟩) m' ∧
      (map ⟨0⟩ 1 0x80100 2 Flags.rwx).run m' = .ok (.ok ()) m'' ∧
      (m''.spaceAt ⟨0⟩).root = some ⟨0x80000, 1, ⟨0⟩⟩ ∧
      ((∃ frags err, (translate ⟨0⟩ 0x1ff8 16).run m'' = .ok (frags, err) m'' ∧
        Mode.sv39.Walked m''.memory 0x80000 0x1ff8 16 frags err) ∧
      ∃ data err, (readFrom ⟨0⟩ 0x1ff8 (16 : UInt64).toNat).run m'' = .ok (data, err) m'' ∧
        data.size = (16 : UInt64).toNat ∧
        (err = none ↔ ∀ j < (16 : UInt64).toNat,
          ∃ pa, Mode.sv39.Translates m''.memory 0x80000 (0x1ff8 + j.toUInt64) pa) ∧
        (err = none → ∀ j (hj : j < data.size),
          ∃ pa, Mode.sv39.Translates m''.memory 0x80000 (0x1ff8 + j.toUInt64) pa ∧
            data[j] = m''.memory.readByte pa)) ∧
      ∃ data, (readFrom ⟨0⟩ 0x1ff8 16).run m'' = .ok (data, none) m'' := by
  have h₀ : (newSpace .sv39 ⟨0⟩).run
      { allocators := #[⟨FrameAllocator.new 0x80000 0x80100, #[]⟩] } = .ok (.ok ⟨0⟩) _ := rfl
  obtain ⟨root₀, hf⟩ := FreshSpace.new Mode.sound_sv39 (a := ⟨0⟩)
    (m := { allocators := #[⟨FrameAllocator.new 0x80000 0x80100, #[]⟩] }) (by decide)
    (FrameAllocator.Accounts.new _ _) (by decide) h₀
  have hrwx : Flags.rwx.hasAny .rwx = true := by decide
  obtain ⟨m'', nodes, hrun, hl, -⟩ := hf.map_sv39_ok hrwx
    (by rfl : Mode.sv39.checkRange 1 0x80100 2 = .ok ()) (by decide +kernel)
  obtain ⟨res, m₁, hrun₁, -, -, -, hexact⟩ := hf.map_spec Mode.sound_sv39 1 0x80100 2 hrwx
  rw [hrun] at hrun₁
  injection hrun₁ with hres hm₁
  subst hm₁
  have hroot : (m''.spaceAt ⟨0⟩).root = some ⟨0x80000, 1, ⟨0⟩⟩ := by
    rw [hl.root_box, ← hf.live.root_box]
    rfl
  obtain ⟨-, data, err, hdata, -, hnone, -⟩ :=
    reads_follow_translation Mode.sound_sv39 hroot hl.mode 0x1ff8 16
  -- the sixteen bytes lie on the pages `1` and `2`
  have hpage : ∀ j < 16, (Mode.sv39.vpnOf (0x1ff8 + j.toUInt64)).toNat = (0x1ff8 + j) / 4096 := by
    intro j hj
    have h := Mode.toNat_vpnOf_div (M := .sv39) (0x1ff8 + j.toUInt64) Level.leaf
    rw [show Mode.sv39.levelShift Level.leaf = 0 from rfl,
      show Mode.sv39.pageBits Level.leaf = 12 from rfl,
      pow_zero, Nat.div_one] at h
    rw [h, UInt64.toNat_add]
    simp
    omega
  have hall : ∀ j < (16 : UInt64).toNat,
      ∃ pa, Mode.sv39.Translates m''.memory 0x80000 (0x1ff8 + j.toUInt64) pa := by
    intro j hj
    have hj' : j < 16 := hj
    refine (hexact hres.symm).2.translates Mode.sound_sv39 hroot hl.mode ?_ ?_
    · rw [UInt64.lt_iff_toNat_lt, hpage j hj', Mode.sound_sv39.toNat_vpnLimit,
        show Mode.sv39.tableShift Mode.sv39.topLevel = 27 from rfl]
      omega
    · rw [hpage j hj']
      simp
      omega
  have herr := hnone.2 hall
  subst herr
  exact ⟨_, m'', h₀, hrun, hroot,
    reads_follow_translation Mode.sound_sv39 hroot hl.mode 0x1ff8 16, data, hdata⟩

end Machine

end Paging
