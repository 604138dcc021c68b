import Paging.Proofs.TableMemory
/-!
# The tree of tables

The tables of an address space form a tree in memory. The proofs see each table as a node: the
box that holds it, its level, and its block, which names the page numbers the table serves: those
whose bits from `tableShift level` up are `block`. The root is the node of the top level and
block `0`. Entry `i` of a node of level `L` covers the node of level `L - 1` and block
`childBlock T i`.

`Tree M mem a nodes` says that the nodes are a tree of tables in `mem`: each box has the frames
of a table of its level, aligned to their count and nameable by an entry, the boxes share no
frame, no two nodes have the same level and block, every pointer of a node leads to the node its
entry covers, and every node below the root hangs from a pointer of its parent.

Memory changes that the space makes keep the tree:
* clearing a box apart from the tree changes none of its entries (`Tree.fill`);
* writing a pointer to a cleared table into an invalid entry adds that table as the node the
  entry covers (`Tree.link`);
* writing a leaf into an invalid entry changes no pointer (`Tree.leaf`).
-/

namespace Paging

/-- A table of an address space: its box, its level, and the block of page numbers it serves. -/
structure TableNode where
  box : FrameBox
  level : Level
  block : Nat
  deriving DecidableEq

/-- Two boxes share no frame. -/
def FrameBox.Apart (b c : FrameBox) : Prop :=
  b.ppn.toNat + b.frames.toNat ≤ c.ppn.toNat ∨ c.ppn.toNat + c.frames.toNat ≤ b.ppn.toNat

theorem FrameBox.Apart.symm {b c : FrameBox} (h : b.Apart c) : c.Apart b :=
  Or.symm h

/-- The level one below `T`, as a walk names it. -/
theorem Level.eq_sub_one_of_succ {U T : Level} (h : U.toNat + 1 = T.toNat) : U = T - 1 := by
  apply UInt8.toNat_inj.1
  rw [Level.toNat_sub_one (by omega)]
  omega

namespace Mode

/-- The number of frames that hold a table of the level. -/
def framesOf (M : Mode) (L : Level) : Nat :=
  2 ^ (M.indexWidth L + 3 - M.frameShift)

/-- The block of the node that entry `i` of the node `T` covers. -/
def childBlock (M : Mode) (T : TableNode) (i : Nat) : Nat :=
  T.block * 2 ^ M.indexWidth T.level + i

/-- The box of a node holds a table of its level: as many frames as the table takes, aligned to
their count, from the allocator `a`, and below the frames an entry can name. -/
def Shaped (M : Mode) (a : AllocatorRef) (T : TableNode) : Prop :=
  T.level.toNat ≤ M.topLevel.toNat ∧ T.box.alloc = a ∧
    T.box.frames.toNat = M.framesOf T.level ∧ T.box.ppn.toNat % M.framesOf T.level = 0 ∧
    T.box.ppn.toNat + M.framesOf T.level ≤ 2 ^ 44

/-- The nodes are a tree of tables in `mem`. -/
structure Tree (M : Mode) (mem : Memory) (a : AllocatorRef) (nodes : List TableNode) : Prop where
  /-- Every box holds a table of its level. -/
  shaped : ∀ T ∈ nodes, M.Shaped a T
  /-- No two boxes share a frame. -/
  apart : nodes.Pairwise fun T U => T.box.Apart U.box
  /-- No two nodes serve the same block at the same level. -/
  distinct : nodes.Pairwise fun T U => T.level ≠ U.level ∨ T.block ≠ U.block
  /-- A valid entry that is not a leaf points to the node it covers. -/
  pointer : ∀ T ∈ nodes, ∀ i : UInt64, i.toNat < 2 ^ M.indexWidth T.level →
    (M.entryAt mem T.box.ppn i).valid = true → (M.entryAt mem T.box.ppn i).isLeaf = false →
    ∃ U ∈ nodes, U.level.toNat + 1 = T.level.toNat ∧ U.block = M.childBlock T i.toNat ∧
      M.entryAt mem T.box.ppn i = Entry.child U.box.ppn
  /-- Every node below the root hangs from a pointer of its parent. -/
  parent : ∀ U ∈ nodes, U.level ≠ M.topLevel →
    ∃ T ∈ nodes, T.level.toNat = U.level.toNat + 1 ∧
      ∃ i : UInt64, i.toNat < 2 ^ M.indexWidth T.level ∧ U.block = M.childBlock T i.toNat ∧
        M.entryAt mem T.box.ppn i = Entry.child U.box.ppn

variable {M : Mode}

namespace Shaped

variable {a : AllocatorRef} {T : TableNode}

theorem frames_pos (h : M.Shaped a T) : 0 < T.box.frames.toNat := by
  rw [h.2.2.1, framesOf]
  positivity

/-- The frames of a shaped box lie below frame `2 ^ 44`, so that entries can name them. -/
theorem end_le (h : M.Shaped a T) : T.box.ppn.toNat + T.box.frames.toNat ≤ 2 ^ 44 := by
  rw [h.2.2.1]
  exact h.2.2.2.2

theorem ppn_lt (h : M.Shaped a T) : T.box.ppn.toNat < 2 ^ 44 := by
  have := h.end_le
  have := h.frames_pos
  omega

theorem end_le_size (h : M.Shaped a T) : T.box.ppn.toNat + T.box.frames.toNat ≤ UInt64.size :=
  h.end_le.trans (by decide)

end Shaped

/-! ## Where the entries of a table lie -/

/-- The entries of a table fill at most its frames. -/
theorem entries_le_frames (M : Mode) (L : Level) :
    2 ^ M.indexWidth L ≤ M.framesOf L * 2 ^ (M.frameShift - 3) := by
  rw [framesOf, ← pow_add]
  exact Nat.pow_le_pow_right (by norm_num) (by omega)

theorem Sound.slotFits_of_shaped (hM : M.Sound) {a : AllocatorRef} {T : TableNode}
    (hT : M.Shaped a T) {i : UInt64} (hi : i.toNat < 2 ^ M.indexWidth T.level) :
    M.SlotFits T.box.ppn i := by
  obtain ⟨-, -, -, -, hfit⟩ := hT
  have he := M.entries_le_frames T.level
  have hf := hM.frameShift_le
  have hpow := hM.pow_frameShift
  unfold SlotFits
  have h1 : T.box.ppn.toNat * 2 ^ M.frameShift + 8 * i.toNat <
      (T.box.ppn.toNat + M.framesOf T.level) * 2 ^ M.frameShift := by
    rw [hpow]
    nlinarith
  have h2 : (T.box.ppn.toNat + M.framesOf T.level) * 2 ^ M.frameShift ≤ 2 ^ 44 * 2 ^ 20 :=
    Nat.mul_le_mul hfit (Nat.pow_le_pow_right (by norm_num) hf)
  simp only [UInt64.size]
  omega

/-- The key of an entry lies among the keys of its table's frames. -/
theorem slotKey_mem {a : AllocatorRef} {T : TableNode} (hT : M.Shaped a T)
    {i : UInt64} (hi : i.toNat < 2 ^ M.indexWidth T.level) :
    T.box.ppn.toNat * 2 ^ (M.frameShift - 3) ≤ M.slotKey T.box.ppn i ∧
      M.slotKey T.box.ppn i < (T.box.ppn.toNat + T.box.frames.toNat) * 2 ^ (M.frameShift - 3) := by
  obtain ⟨-, -, hfr, -, -⟩ := hT
  have he := M.entries_le_frames T.level
  rw [slotKey, hfr]
  constructor
  · omega
  · nlinarith

/-- Entries of boxes that share no frame lie at different keys. -/
theorem slotKey_ne_of_apart {a : AllocatorRef} {T U : TableNode}
    (hT : M.Shaped a T) (hU : M.Shaped a U) (hTU : T.box.Apart U.box) {i j : UInt64}
    (hi : i.toNat < 2 ^ M.indexWidth T.level) (hj : j.toNat < 2 ^ M.indexWidth U.level) :
    M.slotKey T.box.ppn i ≠ M.slotKey U.box.ppn j := by
  have h1 := slotKey_mem hT hi
  have h2 := slotKey_mem hU hj
  rcases hTU with h | h
  · have := Nat.mul_le_mul_right (2 ^ (M.frameShift - 3)) h
    omega
  · have := Nat.mul_le_mul_right (2 ^ (M.frameShift - 3)) h
    omega

/-- A block and an index below the width are read back from the block of the child. -/
theorem childBlock_div_mod (T : TableNode) {i : Nat} (hi : i < 2 ^ M.indexWidth T.level) :
    M.childBlock T i / 2 ^ M.indexWidth T.level = T.block ∧
      M.childBlock T i % 2 ^ M.indexWidth T.level = i := by
  have hpos : 0 < 2 ^ M.indexWidth T.level := by positivity
  constructor
  · rw [childBlock, Nat.add_comm, Nat.add_mul_div_right _ _ hpos, Nat.div_eq_of_lt hi,
      Nat.zero_add]
  · rw [childBlock, Nat.add_comm, Nat.add_mul_mod_self_right, Nat.mod_eq_of_lt hi]

/-- Two entries of nodes of one level cover the same block only from the same block and index. -/
theorem childBlock_inj {T U : TableNode} (hl : T.level = U.level) {i j : Nat}
    (hi : i < 2 ^ M.indexWidth T.level) (hj : j < 2 ^ M.indexWidth U.level)
    (h : M.childBlock T i = M.childBlock U j) : T.block = U.block ∧ i = j := by
  have hT := childBlock_div_mod T hi
  have hU := childBlock_div_mod U hj
  rw [← hl, ← h] at hU
  exact ⟨hT.1.symm.trans hU.1, hT.2.symm.trans hU.2⟩

/-- The block of the page at the level: the bits of its number from `tableShift L` up, within the
bits that the mode translates. The pages of one block share the level's table. -/
def blockOf (M : Mode) (v : VirtPage) (L : Level) : Nat :=
  v.toNat % 2 ^ M.tableShift M.topLevel / 2 ^ M.tableShift L

/-- Every page lies in the one block of the root. -/
theorem blockOf_topLevel (M : Mode) (v : VirtPage) : M.blockOf v M.topLevel = 0 :=
  Nat.div_eq_of_lt (Nat.mod_lt _ (by positivity))

theorem tableShift_le {L : Level} (hL : L.toNat ≤ M.topLevel.toNat) :
    M.tableShift L ≤ M.tableShift M.topLevel := by
  by_cases htop : L = M.topLevel
  · rw [htop]
  · have hlt : L.toNat + 1 ≤ M.topLevel.toNat := by
      have : L.toNat ≠ M.topLevel.toNat := fun e => htop (UInt8.toNat_inj.1 e)
      omega
    have := Nat.mul_le_mul_right M.entriesShift hlt
    simp only [tableShift, levelShift, indexWidth, if_neg htop]
    rw [Nat.add_mul, Nat.one_mul] at this
    omega

/-- Below the root, a table serves the pages of one entry of the level above. -/
theorem tableShift_sub_one {L : Level} (h1 : 1 ≤ L.toNat)
    (hL : L.toNat ≤ M.topLevel.toNat) : M.tableShift (L - 1) = M.levelShift L := by
  have hsub : (L - 1).toNat = L.toNat - 1 := Level.toNat_sub_one h1
  have hne : L - 1 ≠ M.topLevel := fun e => by
    rw [e] at hsub
    omega
  simp only [tableShift, levelShift, indexWidth, if_neg hne, hsub]
  calc (L.toNat - 1) * M.entriesShift + M.entriesShift
      = (L.toNat - 1 + 1) * M.entriesShift := by rw [Nat.add_mul, Nat.one_mul]
    _ = L.toNat * M.entriesShift := by rw [Nat.sub_add_cancel h1]

/-- The digits of a page from a level up are its block at the level and its index there. -/
theorem Sound.div_levelShift (hM : M.Sound) (v : VirtPage) {L : Level}
    (hL : L.toNat ≤ M.topLevel.toNat) :
    v.toNat % 2 ^ M.tableShift M.topLevel / 2 ^ M.levelShift L =
      M.blockOf v L * 2 ^ M.indexWidth L + (M.slotIndex v L).toNat := by
  have hTS := tableShift_le hL
  -- the index of the page is its digit below the bits that the mode translates
  have hdigit : v.toNat % 2 ^ M.tableShift M.topLevel / 2 ^ M.levelShift L %
      2 ^ M.indexWidth L = v.toNat / 2 ^ M.levelShift L % 2 ^ M.indexWidth L := by
    have hsplit : 2 ^ M.tableShift M.topLevel =
        2 ^ M.levelShift L * 2 ^ (M.tableShift M.topLevel - M.levelShift L) := by
      rw [← pow_add]
      congr 1
      simp only [tableShift] at hTS ⊢
      omega
    rw [hsplit, Nat.mod_mul_right_div_self]
    refine Nat.mod_mod_of_dvd _ (Nat.pow_dvd_pow 2 ?_)
    simp only [tableShift] at hTS ⊢
    omega
  rw [blockOf, hM.toNat_slotIndex v hL, ← hdigit,
    show M.tableShift L = M.levelShift L + M.indexWidth L from rfl, pow_add,
    ← Nat.div_div_eq_div_mul]
  exact (Nat.div_add_mod' _ _).symm

/-- The entry that covers a page in the table of its block at level `L` covers the block of the
page at level `L - 1`. -/
theorem Sound.childBlock_slotIndex (hM : M.Sound) (v : VirtPage) {T : TableNode}
    (h1 : 1 ≤ T.level.toNat) (hL : T.level.toNat ≤ M.topLevel.toNat)
    (hb : T.block = M.blockOf v T.level) :
    M.childBlock T (M.slotIndex v T.level).toNat = M.blockOf v (T.level - 1) := by
  rw [childBlock, hb, ← hM.div_levelShift v hL, blockOf, tableShift_sub_one h1 hL]

/-! ## What the tree gives -/

namespace Tree

variable {mem : Memory} {a : AllocatorRef} {nodes : List TableNode}

/-- A pointer of a node names the node it covers. -/
theorem ppn_of_pointer (h : M.Tree mem a nodes) {T U : TableNode} (hU : U ∈ nodes) {i : UInt64}
    (he : M.entryAt mem T.box.ppn i = Entry.child U.box.ppn) :
    (M.entryAt mem T.box.ppn i).ppn = U.box.ppn := by
  rw [he, Entry.child, Entry.ppn_ofPPN _ (h.shaped U hU).ppn_lt]

/-- A node is the only one of its level and block. -/
theorem eq_of_level_block (h : M.Tree mem a nodes) {T U : TableNode} (hT : T ∈ nodes)
    (hU : U ∈ nodes) (hl : T.level = U.level) (hb : T.block = U.block) : T = U := by
  by_contra hne
  have : Std.Symm fun T U : TableNode => T.level ≠ U.level ∨ T.block ≠ U.block :=
    ⟨fun _ _ h => h.imp Ne.symm Ne.symm⟩
  rcases h.distinct.forall hT hU hne with h | h
  · exact h hl
  · exact h hb

/-- An entry of the tree lies at a key of its own. -/
theorem eq_of_slotKey_eq (h : M.Tree mem a nodes) {T U : TableNode} (hT : T ∈ nodes)
    (hU : U ∈ nodes) {i j : UInt64} (hi : i.toNat < 2 ^ M.indexWidth T.level)
    (hj : j.toNat < 2 ^ M.indexWidth U.level)
    (hk : M.slotKey T.box.ppn i = M.slotKey U.box.ppn j) : T = U ∧ i = j := by
  have hTU : T = U := by
    by_contra hne
    have : Std.Symm fun T U : TableNode => T.box.Apart U.box := ⟨fun _ _ h => h.symm⟩
    exact slotKey_ne_of_apart (h.shaped T hT) (h.shaped U hU) (h.apart.forall hT hU hne) hi hj hk
  subst hTU
  refine ⟨rfl, UInt64.toNat_inj.1 ?_⟩
  simp only [slotKey] at hk
  omega

/-- The tree depends on the entries of its tables only. -/
theorem of_entryAt_eq (h : M.Tree mem a nodes) {mem' : Memory}
    (he : ∀ T ∈ nodes, ∀ i : UInt64, i.toNat < 2 ^ M.indexWidth T.level →
      M.entryAt mem' T.box.ppn i = M.entryAt mem T.box.ppn i) :
    M.Tree mem' a nodes where
  shaped := h.shaped
  apart := h.apart
  distinct := h.distinct
  pointer T hT i hi hv hl := by
    rw [he T hT i hi] at hv hl ⊢
    exact h.pointer T hT i hi hv hl
  parent U hU htop := by
    obtain ⟨T, hT, hlev, i, hi, hb, hc⟩ := h.parent U hU htop
    exact ⟨T, hT, hlev, i, hi, hb, by rw [he T hT i hi, hc]⟩

end Tree

/-! ## Clearing a new table -/

theorem Sound.table_fits (hM : M.Sound) {a : AllocatorRef} {N : TableNode} (hN : M.Shaped a N) :
    N.box.ppn.toNat * 2 ^ M.frameShift + 8 * 2 ^ M.indexWidth N.level ≤ UInt64.size := by
  obtain ⟨-, -, -, -, hfit⟩ := hN
  have he := M.entries_le_frames N.level
  have hpow := hM.pow_frameShift
  have h2 : (N.box.ppn.toNat + M.framesOf N.level) * 2 ^ M.frameShift ≤ 2 ^ 44 * 2 ^ 20 :=
    Nat.mul_le_mul hfit (Nat.pow_le_pow_right (by norm_num) hM.frameShift_le)
  have h1 : N.box.ppn.toNat * 2 ^ M.frameShift + 8 * 2 ^ M.indexWidth N.level ≤
      (N.box.ppn.toNat + M.framesOf N.level) * 2 ^ M.frameShift := by
    rw [hpow]
    nlinarith
  simp only [UInt64.size]
  omega

/-- A cleared table reads as invalid entries. -/
theorem Sound.entryAt_fill_self (hM : M.Sound) (mem : Memory) {a : AllocatorRef} {N : TableNode}
    (hN : M.Shaped a N) {i : UInt64} (hi : i.toNat < 2 ^ M.indexWidth N.level) :
    M.entryAt (mem.fill (M.physAddrOf N.box.ppn) (2 ^ M.indexWidth N.level * 8) 0) N.box.ppn i =
      ⟨0⟩ := by
  rw [hM.entryAt_fill mem (by positivity) (hM.table_fits hN) (hM.slotFits_of_shaped hN hi),
    if_pos (by simp only [slotKey]; omega)]

/-- Clearing a table leaves the entries of the tables apart from it. -/
theorem Sound.entryAt_fill_apart (hM : M.Sound) (mem : Memory) {a : AllocatorRef}
    {N T : TableNode} (hN : M.Shaped a N) (hT : M.Shaped a T) (hNT : N.box.Apart T.box)
    {i : UInt64} (hi : i.toNat < 2 ^ M.indexWidth T.level) :
    M.entryAt (mem.fill (M.physAddrOf N.box.ppn) (2 ^ M.indexWidth N.level * 8) 0) T.box.ppn i =
      M.entryAt mem T.box.ppn i := by
  rw [hM.entryAt_fill mem (by positivity) (hM.table_fits hN) (hM.slotFits_of_shaped hT hi),
    if_neg]
  have hk := slotKey_mem hT hi
  have he := M.entries_le_frames N.level
  obtain ⟨-, -, hfr, -, -⟩ := hN
  rcases hNT with h | h
  · have := Nat.mul_le_mul_right (2 ^ (M.frameShift - 3)) h
    rw [hfr, Nat.add_mul] at this
    omega
  · have := Nat.mul_le_mul_right (2 ^ (M.frameShift - 3)) h
    omega

/-- Clearing a box apart from the tree keeps the tree. -/
theorem Tree.fill (hM : M.Sound) {mem : Memory} {a : AllocatorRef} {nodes : List TableNode}
    (h : M.Tree mem a nodes) {N : TableNode} (hN : M.Shaped a N)
    (hapart : ∀ T ∈ nodes, N.box.Apart T.box) :
    M.Tree (mem.fill (M.physAddrOf N.box.ppn) (2 ^ M.indexWidth N.level * 8) 0) a nodes :=
  h.of_entryAt_eq fun T hT _ hi => hM.entryAt_fill_apart mem hN (h.shaped T hT) (hapart T hT) hi

/-! ## Writing an entry -/

/-- Writing an entry of a table leaves the entries of the tables apart from it. -/
theorem Sound.entryAt_writeWord_apart (hM : M.Sound) (mem : Memory) {a : AllocatorRef}
    {T U : TableNode} (hT : M.Shaped a T) (hU : M.Shaped a U) (hTU : T.box.Apart U.box)
    {i j : UInt64} (hi : i.toNat < 2 ^ M.indexWidth T.level)
    (hj : j.toNat < 2 ^ M.indexWidth U.level) (v : UInt64) :
    M.entryAt (mem.writeWord (Machine.slotAddr M T.box.ppn i) v) U.box.ppn j =
      M.entryAt mem U.box.ppn j := by
  rw [hM.entryAt_writeWord mem (hM.slotFits_of_shaped hT hi) (hM.slotFits_of_shaped hU hj),
    if_neg (slotKey_ne_of_apart hT hU hTU hi hj)]

/-- Writing an entry of the tree changes that entry of the tree and no other. -/
theorem Tree.entryAt_writeWord (hM : M.Sound) {mem : Memory} {a : AllocatorRef}
    {nodes : List TableNode} (h : M.Tree mem a nodes) {T U : TableNode} (hT : T ∈ nodes)
    (hU : U ∈ nodes) {i j : UInt64} (hi : i.toNat < 2 ^ M.indexWidth T.level)
    (hj : j.toNat < 2 ^ M.indexWidth U.level) (v : UInt64) :
    M.entryAt (mem.writeWord (Machine.slotAddr M T.box.ppn i) v) U.box.ppn j =
      if T = U ∧ i = j then ⟨v⟩ else M.entryAt mem U.box.ppn j := by
  rw [hM.entryAt_writeWord mem (hM.slotFits_of_shaped (h.shaped T hT) hi)
    (hM.slotFits_of_shaped (h.shaped U hU) hj)]
  by_cases hk : M.slotKey T.box.ppn i = M.slotKey U.box.ppn j
  · obtain ⟨rfl, rfl⟩ := h.eq_of_slotKey_eq hT hU hi hj hk
    simp
  · rw [if_neg hk, if_neg]
    rintro ⟨rfl, rfl⟩
    exact hk rfl

namespace Tree

variable {mem : Memory} {a : AllocatorRef} {nodes : List TableNode}

/-- A node of the tree hangs from no invalid entry: the entry of a node that covers the block
of another node at the level below is that node's pointer. -/
theorem valid_of_parent (h : M.Tree mem a nodes) {T P U : TableNode} (hT : T ∈ nodes)
    (hP : P ∈ nodes) {i k : UInt64} (hi : i.toNat < 2 ^ M.indexWidth T.level)
    (hk : k.toNat < 2 ^ M.indexWidth P.level) (hl : P.level = T.level)
    (hb : M.childBlock P k.toNat = M.childBlock T i.toNat)
    (hc : M.entryAt mem P.box.ppn k = Entry.child U.box.ppn) :
    (M.entryAt mem T.box.ppn i).valid = true := by
  obtain ⟨hbl, hik⟩ := childBlock_inj hl hk hi hb
  obtain rfl := h.eq_of_level_block hP hT hl hbl
  obtain rfl : k = i := UInt64.toNat_inj.1 hik
  rw [hc, Entry.valid_child]

/-- Writing a leaf into an invalid entry keeps the tree: the entry was no node's pointer. -/
theorem leaf (hM : M.Sound) (h : M.Tree mem a nodes) {T : TableNode} (hT : T ∈ nodes)
    {i : UInt64} (hi : i.toNat < 2 ^ M.indexWidth T.level)
    (hinv : (M.entryAt mem T.box.ppn i).valid = false) {e : Entry} (he : e.isLeaf = true) :
    M.Tree (mem.writeWord (Machine.slotAddr M T.box.ppn i) e.raw) a nodes where
  shaped := h.shaped
  apart := h.apart
  distinct := h.distinct
  pointer V hV j hj hv hl := by
    rw [h.entryAt_writeWord hM hT hV hi hj] at hv hl ⊢
    by_cases hTV : T = V ∧ i = j
    · rw [if_pos hTV] at hl
      exact Bool.noConfusion (he.symm.trans hl)
    · rw [if_neg hTV] at hv hl ⊢
      exact h.pointer V hV j hj hv hl
  parent W hW htop := by
    obtain ⟨P, hP, hlev, k, hk, hb, hc⟩ := h.parent W hW htop
    refine ⟨P, hP, hlev, k, hk, hb, ?_⟩
    rw [h.entryAt_writeWord hM hT hP hi hk, if_neg, hc]
    rintro ⟨rfl, rfl⟩
    rw [hc, Entry.valid_child] at hinv
    exact Bool.noConfusion hinv

/-- Writing into an invalid entry a pointer to a new table, apart from the tree and with no valid
entry, adds that table as the node the entry covers. -/
theorem link (hM : M.Sound) (h : M.Tree mem a nodes) {T : TableNode} (hT : T ∈ nodes)
    {i : UInt64} (hi : i.toNat < 2 ^ M.indexWidth T.level)
    (hinv : (M.entryAt mem T.box.ppn i).valid = false) {U : TableNode} (hU : M.Shaped a U)
    (hlev : U.level.toNat + 1 = T.level.toNat) (hblock : U.block = M.childBlock T i.toNat)
    (hapart : ∀ V ∈ nodes, U.box.Apart V.box)
    (hempty : ∀ j : UInt64, j.toNat < 2 ^ M.indexWidth U.level →
      (M.entryAt mem U.box.ppn j).valid = false) :
    M.Tree (mem.writeWord (Machine.slotAddr M T.box.ppn i) (Entry.child U.box.ppn).raw) a
      (nodes ++ [U]) := by
  -- entries of the new table are apart from the written one
  have hnew : ∀ j : UInt64, j.toNat < 2 ^ M.indexWidth U.level →
      M.entryAt (mem.writeWord (Machine.slotAddr M T.box.ppn i) (Entry.child U.box.ppn).raw)
        U.box.ppn j = M.entryAt mem U.box.ppn j := fun j hj =>
    hM.entryAt_writeWord_apart mem (h.shaped T hT) hU (hapart T hT).symm hi hj _
  have hTtop : T.level.toNat ≤ M.topLevel.toNat := (h.shaped T hT).1
  refine ⟨?shaped, ?apart, ?distinct, ?pointer, ?parent⟩
  case shaped =>
    intro V hV
    rcases List.mem_append.1 hV with hV | hV
    · exact h.shaped V hV
    · obtain rfl := List.mem_singleton.1 hV
      exact hU
  case apart =>
    refine List.pairwise_append.2 ⟨h.apart, List.pairwise_singleton _ _, ?_⟩
    intro V hV W hW
    obtain rfl := List.mem_singleton.1 hW
    exact (hapart V hV).symm
  case distinct =>
    -- a node of the level and block of the new one would hang from the invalid entry
    refine List.pairwise_append.2 ⟨h.distinct, List.pairwise_singleton _ _, ?_⟩
    intro V hV W hW
    rw [List.mem_singleton.1 hW]
    by_contra hsame
    obtain ⟨hl, hb⟩ : V.level = U.level ∧ V.block = U.block := by
      simpa only [not_or, not_not] using hsame
    have hVtop : V.level ≠ M.topLevel := by
      intro hV
      rw [hl] at hV
      rw [hV] at hlev
      omega
    obtain ⟨P, hP, hPl, k, hk, hPb, hc⟩ := h.parent V hV hVtop
    rw [hl] at hPl
    have hPT : P.level = T.level := UInt8.toNat_inj.1 (by omega)
    rw [h.valid_of_parent hT hP hi hk hPT (hPb.symm.trans (hb.trans hblock)) hc] at hinv
    exact Bool.noConfusion hinv
  case pointer =>
    intro V hV j hj hv hl
    rcases List.mem_append.1 hV with hV | hV
    · rw [h.entryAt_writeWord hM hT hV hi hj] at hv hl ⊢
      split
      · next hTV =>
        obtain ⟨rfl, rfl⟩ := hTV
        exact ⟨U, List.mem_append_right _ (List.mem_singleton_self U), hlev, hblock, rfl⟩
      · next hTV =>
        rw [if_neg hTV] at hv hl
        obtain ⟨W, hW, hWl, hWb, hc⟩ := h.pointer V hV j hj hv hl
        exact ⟨W, List.mem_append_left _ hW, hWl, hWb, hc⟩
    · obtain rfl := List.mem_singleton.1 hV
      rw [hnew j hj, hempty j hj] at hv
      exact Bool.noConfusion hv
  case parent =>
    intro W hW htop
    rcases List.mem_append.1 hW with hW | hW
    · obtain ⟨P, hP, hPl, k, hk, hb, hc⟩ := h.parent W hW htop
      refine ⟨P, List.mem_append_left _ hP, hPl, k, hk, hb, ?_⟩
      rw [h.entryAt_writeWord hM hT hP hi hk, if_neg, hc]
      rintro ⟨rfl, rfl⟩
      rw [hc, Entry.valid_child] at hinv
      exact Bool.noConfusion hinv
    · rw [List.mem_singleton.1 hW]
      refine ⟨T, List.mem_append_left _ hT, hlev.symm, i, hi, hblock, ?_⟩
      rw [h.entryAt_writeWord hM hT hT hi hi, if_pos ⟨rfl, rfl⟩]

end Tree

/-! ## Growing a tree -/

/-- The tree `nodes` in `mem` grows out of the tree `nodes₀` in `mem₀`: it keeps every table of
it, and every entry of those tables that was valid. -/
structure Grows (M : Mode) (mem₀ : Memory) (nodes₀ : List TableNode) (mem : Memory)
    (nodes : List TableNode) : Prop where
  keeps_nodes : nodes₀ <+: nodes
  keeps_valid : ∀ T ∈ nodes₀, ∀ i : UInt64, i.toNat < 2 ^ M.indexWidth T.level →
    (M.entryAt mem₀ T.box.ppn i).valid = true →
      M.entryAt mem T.box.ppn i = M.entryAt mem₀ T.box.ppn i

namespace Grows

variable {mem₀ mem mem' : Memory} {nodes₀ nodes nodes' : List TableNode}

theorem refl (M : Mode) (mem : Memory) (nodes : List TableNode) : M.Grows mem nodes mem nodes :=
  ⟨List.prefix_refl nodes, fun _ _ _ _ _ => rfl⟩

theorem trans (h : M.Grows mem₀ nodes₀ mem nodes) (h' : M.Grows mem nodes mem' nodes') :
    M.Grows mem₀ nodes₀ mem' nodes' where
  keeps_nodes := h.keeps_nodes.trans h'.keeps_nodes
  keeps_valid T hT i hi hv := by
    have he := h.keeps_valid T hT i hi hv
    rw [← he] at hv
    rw [h'.keeps_valid T (h.keeps_nodes.subset hT) i hi hv, he]

/-- A change that leaves the entries of every table of the tree leaves what grew. -/
theorem of_entryAt_eq (h : M.Grows mem₀ nodes₀ mem nodes)
    (he : ∀ T ∈ nodes, ∀ i : UInt64, i.toNat < 2 ^ M.indexWidth T.level →
      M.entryAt mem' T.box.ppn i = M.entryAt mem T.box.ppn i) :
    M.Grows mem₀ nodes₀ mem' nodes :=
  h.trans ⟨List.prefix_refl nodes, fun T hT i hi _ => he T hT i hi⟩

/-- A table added to the tree. -/
theorem append (h : M.Grows mem₀ nodes₀ mem nodes) (U : TableNode) :
    M.Grows mem₀ nodes₀ mem (nodes ++ [U]) :=
  ⟨h.keeps_nodes.trans (List.prefix_append nodes [U]), h.keeps_valid⟩

/-- Writing into an invalid entry of the tree changes no entry that was valid. -/
theorem writeWord (hM : M.Sound) (h : M.Grows mem₀ nodes₀ mem nodes) {a : AllocatorRef}
    (ht : M.Tree mem a nodes) {T : TableNode} (hT : T ∈ nodes) {i : UInt64}
    (hi : i.toNat < 2 ^ M.indexWidth T.level) (hinv : (M.entryAt mem T.box.ppn i).valid = false)
    (v : UInt64) :
    M.Grows mem₀ nodes₀ (mem.writeWord (Machine.slotAddr M T.box.ppn i) v) nodes where
  keeps_nodes := h.keeps_nodes
  keeps_valid S hS j hj hv := by
    have he := h.keeps_valid S hS j hj hv
    rw [ht.entryAt_writeWord hM hT (h.keeps_nodes.subset hS) hi hj, if_neg, he]
    rintro ⟨rfl, rfl⟩
    rw [he, hv] at hinv
    exact Bool.noConfusion hinv

end Grows

end Mode

end Paging