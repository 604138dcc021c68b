import Paging.Proofs.SpaceMap
/-!
# Looking up a page

`Machine.findEntry` walks the tables of a space from the root towards the leaves. Read off the
memory, the walk is `Mode.walk`, and from the root it is `Mode.lookup` (`findEntry_run_of_root`,
`LiveSpace.findEntry_run`).

In a tree of tables the walk of a page passes only through the nodes of the page's blocks, one
per level, so what a lookup finds is said by the tree alone: the one leaf that a node of the
page's blocks holds at the page's index (`Mode.LeafAt`), or an invalid entry when there is none
(`Tree.lookup_eq_ok_iff`, `Tree.lookup_eq_error`). A lookup never runs off the lowest level.

The changes that a mapping makes to the memory act on leaves as follows (`Mode.LeafAt` in the new
memory against the old):
* a tree that grows keeps every leaf (`Tree.leafAt_of_grows`);
* a change that keeps the entries of the nodes keeps every leaf (`Tree.leafAt_congr`);
* linking a cleared table below an invalid entry changes no leaf (`Tree.leafAt_link`);
* writing a leaf into an invalid entry adds the leaf for the pages of that entry and for no other
  page (`Tree.leafAt_leaf`).
-/

namespace Paging

open Run

namespace Mode

/-- The walk of `Machine.walkTo` from the table at `t` through `levels`, read off the memory. -/
def walk (M : Mode) (mem : Memory) (v : VirtPage) :
    List Level → PhysPage → Except Fault (Entry × Level)
  | [], _ => .error .notLeafInLowestLevel
  | L :: rest, t =>
    let e := M.entryAt mem t (M.slotIndex v L)
    if !e.valid then .error .invalidEntry
    else if e.isLeaf then .ok (e, L)
    else M.walk mem v rest e.ppn

/-- What a lookup of the page finds from the root table at `root`: the walk through every level
from the top down. -/
def lookup (M : Mode) (mem : Memory) (root : PhysPage) (v : VirtPage) :
    Except Fault (Entry × Level) :=
  M.walk mem v (Level.downFrom M.topLevel (M.topLevel.toNat + 1)) root

/-- The page `v` has the leaf `e` at level `L` among the nodes: the node of the page's block at
level `L` holds the leaf `e` at the page's index. -/
def LeafAt (M : Mode) (mem : Memory) (nodes : List TableNode) (v : VirtPage) (e : Entry)
    (L : Level) : Prop :=
  ∃ T ∈ nodes, T.level = L ∧ T.block = M.blockOf v L ∧
    M.entryAt mem T.box.ppn (M.slotIndex v L) = e ∧ e.valid = true ∧ e.isLeaf = true

end Mode

namespace Mode.Tree

variable {M : Mode} {mem : Memory} {a : AllocatorRef} {nodes : List TableNode}

/-! ## The nodes of a page's blocks -/

/-- The parent of a node of the page's blocks is the node of the page's block one level up, and it
points down at the page's index. -/
theorem parent_of_block (hM : M.Sound) (h : M.Tree mem a nodes) {v : VirtPage} {N : TableNode}
    (hN : N ∈ nodes) (hNb : N.block = M.blockOf v N.level) (htop : N.level ≠ M.topLevel) :
    ∃ P ∈ nodes, P.level.toNat = N.level.toNat + 1 ∧ P.block = M.blockOf v P.level ∧
      M.entryAt mem P.box.ppn (M.slotIndex v P.level) = Entry.child N.box.ppn := by
  obtain ⟨P, hP, hPl, i, hi, hNi, hPe⟩ := h.parent N hN htop
  have hPtop : P.level.toNat ≤ M.topLevel.toNat := (h.shaped P hP).1
  -- the node of the page's block one level up would cover the page's block at `N`'s level
  let Q : TableNode := ⟨P.box, P.level, M.blockOf v P.level⟩
  have hQ : M.childBlock Q (M.slotIndex v P.level).toNat = M.blockOf v N.level := by
    rw [hM.childBlock_slotIndex v (T := Q) (by show 1 ≤ P.level.toNat; omega) hPtop rfl,
      ← Level.eq_sub_one_of_succ hPl.symm]
  obtain ⟨hb, hidx⟩ := childBlock_inj (T := P) (U := Q) rfl hi (hM.slotIndex_lt v hPtop)
    (hNi.symm.trans (hNb.trans hQ.symm))
  refine ⟨P, hP, hPl, hb, ?_⟩
  rw [← UInt64.toNat_inj.1 hidx]
  exact hPe

/-- Above a node of the page's blocks, every node of the page's blocks points down at the page's
index to the node of the page's block one level down. -/
theorem pointer_of_below (hM : M.Sound) (h : M.Tree mem a nodes) {v : VirtPage} {T : TableNode}
    (hT : T ∈ nodes) (hTb : T.block = M.blockOf v T.level) {N : TableNode} (hN : N ∈ nodes)
    (hNb : N.block = M.blockOf v N.level) (hlt : N.level.toNat < T.level.toNat) :
    ∃ U ∈ nodes, U.level.toNat + 1 = T.level.toNat ∧ U.block = M.blockOf v U.level ∧
      M.entryAt mem T.box.ppn (M.slotIndex v T.level) = Entry.child U.box.ppn := by
  have hTtop : T.level.toNat ≤ M.topLevel.toNat := (h.shaped T hT).1
  -- induction on the number of levels between `N` and `T`, climbing through the parents
  suffices hd : ∀ d, ∀ N ∈ nodes, N.block = M.blockOf v N.level →
      N.level.toNat + d + 1 = T.level.toNat → ∃ U ∈ nodes, U.level.toNat + 1 = T.level.toNat ∧
        U.block = M.blockOf v U.level ∧
        M.entryAt mem T.box.ppn (M.slotIndex v T.level) = Entry.child U.box.ppn from
    hd (T.level.toNat - N.level.toNat - 1) N hN hNb (by omega)
  intro d
  induction d with
  | zero =>
    intro N hN hNb hd
    obtain ⟨P, hP, hPl, hPb, hPe⟩ :=
      h.parent_of_block hM hN hNb (fun he => by rw [he] at hd; omega)
    have hPT : P.level = T.level := UInt8.toNat_inj.1 (by omega)
    obtain rfl := h.eq_of_level_block hP hT hPT (by rw [hPb, hTb, hPT])
    exact ⟨N, hN, by omega, hNb, hPe⟩
  | succ d ih =>
    intro N hN hNb hd
    obtain ⟨P, hP, hPl, hPb, -⟩ :=
      h.parent_of_block hM hN hNb (fun he => by rw [he] at hd; omega)
    exact ih P hP hPb (by omega)

/-- A valid entry that is not a leaf, of a node of the page's blocks at the page's index, points
to the node of the page's block one level down. -/
theorem child_of_pointer (hM : M.Sound) (h : M.Tree mem a nodes) {v : VirtPage} {T : TableNode}
    (hT : T ∈ nodes) (hTb : T.block = M.blockOf v T.level)
    (hv : (M.entryAt mem T.box.ppn (M.slotIndex v T.level)).valid = true)
    (hl : (M.entryAt mem T.box.ppn (M.slotIndex v T.level)).isLeaf = false) :
    ∃ U ∈ nodes, U.level.toNat + 1 = T.level.toNat ∧ U.block = M.blockOf v U.level ∧
      (M.entryAt mem T.box.ppn (M.slotIndex v T.level)).ppn = U.box.ppn := by
  have hTtop : T.level.toNat ≤ M.topLevel.toNat := (h.shaped T hT).1
  obtain ⟨U, hU, hUl, hUb, hUe⟩ := h.pointer T hT _ (hM.slotIndex_lt v hTtop) hv hl
  refine ⟨U, hU, hUl, ?_, h.ppn_of_pointer hU hUe⟩
  rw [hUb, hM.childBlock_slotIndex v (by omega) hTtop hTb, Level.eq_sub_one_of_succ hUl]

/-- A leaf of the page at or below a node of the page's blocks is either the node's own entry at
the page's index, or lies below that entry, which then points down. -/
theorem leafAt_at_or_below (hM : M.Sound) (h : M.Tree mem a nodes) {v : VirtPage} {e : Entry}
    {L : Level} (hleaf : M.LeafAt mem nodes v e L) {T : TableNode} (hT : T ∈ nodes)
    (hTb : T.block = M.blockOf v T.level) (hle : L.toNat ≤ T.level.toNat) :
    (L = T.level ∧ M.entryAt mem T.box.ppn (M.slotIndex v T.level) = e) ∨
      (L.toNat < T.level.toNat ∧
        ∃ U ∈ nodes, M.entryAt mem T.box.ppn (M.slotIndex v T.level) = Entry.child U.box.ppn) := by
  obtain ⟨N, hN, rfl, hNb, hNe, -, -⟩ := hleaf
  rcases Nat.lt_or_ge N.level.toNat T.level.toNat with hlt | hge
  · obtain ⟨U, hU, -, -, hUe⟩ := h.pointer_of_below hM hT hTb hN hNb hlt
    exact Or.inr ⟨hlt, U, hU, hUe⟩
  · have hNT : N.level = T.level := UInt8.toNat_inj.1 (by omega)
    obtain rfl := h.eq_of_level_block hN hT hNT (by rw [hNb, hTb, hNT])
    exact Or.inl ⟨rfl, hNe⟩

/-- A page has no leaf when a node of its blocks holds an invalid entry at its index. -/
theorem not_leafAt_of_invalid (hM : M.Sound) (h : M.Tree mem a nodes) {v : VirtPage}
    {T : TableNode} (hT : T ∈ nodes) (hTb : T.block = M.blockOf v T.level)
    (hinv : (M.entryAt mem T.box.ppn (M.slotIndex v T.level)).valid = false) (e : Entry)
    (L : Level) : ¬ M.LeafAt mem nodes v e L := by
  intro hleaf
  rcases le_or_gt L.toNat T.level.toNat with hle | hlt
  · -- at or below the node, the leaf is the invalid entry or lies under it
    rcases h.leafAt_at_or_below hM hleaf hT hTb hle with ⟨-, he⟩ | ⟨-, U, -, hU⟩
    · obtain ⟨-, -, -, -, -, hv, -⟩ := hleaf
      rw [he, hv] at hinv
      cases hinv
    · rw [hU, Entry.valid_child] at hinv
      cases hinv
  · -- above the node, the page's entry points down towards it
    obtain ⟨N, hN, rfl, hNb, hNe, -, hl⟩ := hleaf
    obtain ⟨U, -, -, -, hUe⟩ := h.pointer_of_below hM hN hNb hT hTb hlt
    rw [← hNe, hUe, Entry.isLeaf_child] at hl
    cases hl

/-! ## What a walk finds -/

/-- A walk from a node of the page's blocks through the levels below it finds the leaf of the page
at or below the node, and otherwise an invalid entry. -/
theorem walk_eq (hM : M.Sound) (h : M.Tree mem a nodes) (v : VirtPage) (e : Entry) (L : Level) :
    ∀ k, ∀ T ∈ nodes, T.level.toNat + 1 = k → T.block = M.blockOf v T.level →
      (M.walk mem v (Level.downFrom T.level k) T.box.ppn = .ok (e, L) ↔
        M.LeafAt mem nodes v e L ∧ L.toNat ≤ T.level.toNat) ∧
      ∀ f, M.walk mem v (Level.downFrom T.level k) T.box.ppn = .error f → f = .invalidEntry := by
  intro k
  induction k with
  | zero => intro T _ hk; omega
  | succ k ih =>
    intro T hT hk hTb
    rw [Level.downFrom_succ, Mode.walk]
    cases hv : (M.entryAt mem T.box.ppn (M.slotIndex v T.level)).valid
    · -- an invalid entry: no leaf of the page at or below the node
      simp only [Bool.not_false, ↓reduceIte, reduceCtorEq, false_iff, not_and, Nat.not_le]
      refine ⟨fun hleaf => by_contra fun hle => ?_, fun f hf => (Except.error.inj hf).symm⟩
      rcases h.leafAt_at_or_below hM hleaf hT hTb (by omega) with ⟨-, hE⟩ | ⟨-, U, -, hE⟩
      · obtain ⟨N, -, -, -, -, hev, -⟩ := hleaf
        rw [hE, hev] at hv
        cases hv
      · rw [hE, Entry.valid_child] at hv
        cases hv
    · cases hl : (M.entryAt mem T.box.ppn (M.slotIndex v T.level)).isLeaf
      · -- a pointer: the walk goes on from the node one level down
        simp only [Bool.not_true, Bool.false_eq_true, ↓reduceIte]
        obtain ⟨U, hU, hUl, hUb, hUp⟩ := h.child_of_pointer hM hT hTb hv hl
        rw [hUp, ← Level.eq_sub_one_of_succ hUl]
        obtain ⟨ih₁, ih₂⟩ := ih U hU (by omega) hUb
        refine ⟨ih₁.trans ⟨fun ⟨hleaf, hle⟩ => ⟨hleaf, by omega⟩, fun ⟨hleaf, hle⟩ => ⟨hleaf, ?_⟩⟩,
          ih₂⟩
        rcases h.leafAt_at_or_below hM hleaf hT hTb hle with ⟨-, hE⟩ | ⟨hlt, -⟩
        · obtain ⟨N, -, -, -, -, -, hel⟩ := hleaf
          rw [hE, hel] at hl
          cases hl
        · omega
      · -- a leaf: the walk stops here
        simp only [Bool.not_true, Bool.false_eq_true, ↓reduceIte, Except.ok.injEq, Prod.mk.injEq,
          reduceCtorEq, IsEmpty.forall_iff, implies_true, and_true]
        constructor
        · rintro ⟨rfl, rfl⟩
          exact ⟨⟨T, hT, rfl, hTb, rfl, hv, hl⟩, Nat.le_refl _⟩
        · rintro ⟨hleaf, hle⟩
          rcases h.leafAt_at_or_below hM hleaf hT hTb hle with ⟨hL, hE⟩ | ⟨-, U, -, hE⟩
          · exact ⟨hE, hL.symm⟩
          · rw [hE, Entry.isLeaf_child] at hl
            cases hl

variable {root : TableNode}

/-- A lookup from the root finds a leaf of the page just when the page has that leaf in the
tree. -/
theorem lookup_eq_ok_iff (hM : M.Sound) (h : M.Tree mem a (root :: nodes))
    (hroot : root.level = M.topLevel) (hblock : root.block = 0) (v : VirtPage) (e : Entry)
    (L : Level) : M.lookup mem root.box.ppn v = .ok (e, L) ↔ M.LeafAt mem (root :: nodes) v e L := by
  have hw := (h.walk_eq hM v e L _ root (List.mem_cons_self ..) rfl
    (by rw [hblock, hroot, blockOf_topLevel])).1
  rw [hroot] at hw
  rw [lookup, hw]
  refine ⟨And.left, fun hleaf => ⟨hleaf, ?_⟩⟩
  obtain ⟨N, hN, rfl, -⟩ := hleaf
  exact (h.shaped N hN).1

/-- A lookup from the root that finds no leaf meets an invalid entry; it never runs off the
lowest level. -/
theorem lookup_eq_error (hM : M.Sound) (h : M.Tree mem a (root :: nodes))
    (hroot : root.level = M.topLevel) (hblock : root.block = 0) (v : VirtPage) {f : Fault}
    (hf : M.lookup mem root.box.ppn v = .error f) : f = .invalidEntry := by
  have hw := (h.walk_eq hM v ⟨0⟩ 0 _ root (List.mem_cons_self ..) rfl
    (by rw [hblock, hroot, blockOf_topLevel])).2 f
  rw [hroot] at hw
  exact hw hf

/-- A lookup of a page without a leaf meets an invalid entry. -/
theorem lookup_eq_invalid (hM : M.Sound) (h : M.Tree mem a (root :: nodes))
    (hroot : root.level = M.topLevel) (hblock : root.block = 0) {v : VirtPage}
    (hno : ∀ e L, ¬ M.LeafAt mem (root :: nodes) v e L) :
    M.lookup mem root.box.ppn v = .error .invalidEntry := by
  cases hlk : M.lookup mem root.box.ppn v with
  | ok p => exact absurd ((h.lookup_eq_ok_iff hM hroot hblock v p.1 p.2).1 hlk) (hno p.1 p.2)
  | error f => rw [h.lookup_eq_error hM hroot hblock v hlk]

/-- A page has at most one leaf in a tree: the one that the lookup finds. -/
theorem leafAt_unique (hM : M.Sound) (h : M.Tree mem a (root :: nodes))
    (hroot : root.level = M.topLevel) (hblock : root.block = 0) {v : VirtPage} {e e' : Entry}
    {L L' : Level} (h₁ : M.LeafAt mem (root :: nodes) v e L)
    (h₂ : M.LeafAt mem (root :: nodes) v e' L') : e' = e ∧ L' = L := by
  have hlk := ((h.lookup_eq_ok_iff hM hroot hblock v e' L').2 h₂).symm.trans
    ((h.lookup_eq_ok_iff hM hroot hblock v e L).2 h₁)
  simpa using hlk

/-! ## How the changes of a mapping act on leaves -/

variable {v : VirtPage}

/-- Leaves depend only on the entries of the nodes. -/
theorem leafAt_congr (hM : M.Sound) (h : M.Tree mem a nodes) {mem' : Memory}
    (he : ∀ T ∈ nodes, ∀ i : UInt64, i.toNat < 2 ^ M.indexWidth T.level →
      M.entryAt mem' T.box.ppn i = M.entryAt mem T.box.ppn i) (v : VirtPage) (e : Entry)
    (L : Level) : M.LeafAt mem' nodes v e L ↔ M.LeafAt mem nodes v e L := by
  constructor
  · rintro ⟨T, hT, rfl, hTb, hTe, hv, hl⟩
    refine ⟨T, hT, rfl, hTb, ?_, hv, hl⟩
    rw [← he T hT _ (hM.slotIndex_lt v (h.shaped T hT).1)]
    exact hTe
  · rintro ⟨T, hT, rfl, hTb, hTe, hv, hl⟩
    refine ⟨T, hT, rfl, hTb, ?_, hv, hl⟩
    rw [he T hT _ (hM.slotIndex_lt v (h.shaped T hT).1)]
    exact hTe

/-- A tree that grows keeps every leaf. -/
theorem leafAt_of_grows (hM : M.Sound) {mem₀ : Memory} {nodes₀ : List TableNode}
    (h₀ : M.Tree mem₀ a nodes₀) (g : M.Grows mem₀ nodes₀ mem nodes) {e : Entry} {L : Level}
    (hleaf : M.LeafAt mem₀ nodes₀ v e L) : M.LeafAt mem nodes v e L := by
  obtain ⟨T, hT, rfl, hTb, hTe, hv, hl⟩ := hleaf
  refine ⟨T, g.keeps_nodes.subset hT, rfl, hTb, ?_, hv, hl⟩
  rw [g.keeps_valid T hT _ (hM.slotIndex_lt v (h₀.shaped T hT).1) (hTe ▸ hv)]
  exact hTe

/-- Linking a cleared table below an invalid entry of the tree changes no leaf. -/
theorem leafAt_link (hM : M.Sound) (h : M.Tree mem a nodes) {T : TableNode} (hT : T ∈ nodes)
    {i : UInt64} (hi : i.toNat < 2 ^ M.indexWidth T.level)
    (hinv : (M.entryAt mem T.box.ppn i).valid = false) {U : TableNode} (hU : M.Shaped a U)
    (hapart : ∀ V ∈ nodes, U.box.Apart V.box)
    (hempty : ∀ j : UInt64, j.toNat < 2 ^ M.indexWidth U.level →
      (M.entryAt mem U.box.ppn j).valid = false) (v : VirtPage) (e : Entry) (L : Level) :
    M.LeafAt (mem.writeWord (Machine.slotAddr M T.box.ppn i) (Entry.child U.box.ppn).raw)
      (nodes ++ [U]) v e L ↔ M.LeafAt mem nodes v e L := by
  constructor
  · rintro ⟨N, hN, rfl, hNb, hNe, hv, hl⟩
    rcases List.mem_append.1 hN with hN | hN
    · -- an old node keeps its entries, but for the written one, which points down
      rw [h.entryAt_writeWord hM hT hN hi (hM.slotIndex_lt v (h.shaped N hN).1)] at hNe
      split at hNe
      · rw [← hNe, show (⟨(Entry.child U.box.ppn).raw⟩ : Entry) = Entry.child U.box.ppn from rfl,
          Entry.isLeaf_child] at hl
        cases hl
      · exact ⟨N, hN, rfl, hNb, hNe, hv, hl⟩
    · -- the new table holds no valid entry
      rw [List.mem_singleton] at hN
      subst hN
      have hj := hM.slotIndex_lt v hU.1
      rw [hM.entryAt_writeWord_apart mem (h.shaped T hT) hU (hapart T hT).symm hi hj] at hNe
      rw [← hNe, hempty _ hj] at hv
      cases hv
  · rintro ⟨N, hN, rfl, hNb, hNe, hv, hl⟩
    refine ⟨N, List.mem_append_left _ hN, rfl, hNb, ?_, hv, hl⟩
    rw [h.entryAt_writeWord hM hT hN hi (hM.slotIndex_lt v (h.shaped N hN).1), if_neg]
    · exact hNe
    · rintro ⟨rfl, rfl⟩
      rw [hNe, hv] at hinv
      cases hinv

/-- Writing a leaf into an invalid entry of the tree adds that leaf for the pages of the entry,
and changes no other leaf. -/
theorem leafAt_leaf (hM : M.Sound) (h : M.Tree mem a nodes) {T : TableNode} (hT : T ∈ nodes)
    {i : UInt64} (hi : i.toNat < 2 ^ M.indexWidth T.level)
    (hinv : (M.entryAt mem T.box.ppn i).valid = false) {e : Entry} (hev : e.valid = true)
    (hel : e.isLeaf = true) (v : VirtPage) (e' : Entry) (L : Level) :
    M.LeafAt (mem.writeWord (Machine.slotAddr M T.box.ppn i) e.raw) nodes v e' L ↔
      M.LeafAt mem nodes v e' L ∨
        (T.block = M.blockOf v T.level ∧ M.slotIndex v T.level = i ∧ e' = e ∧ L = T.level) := by
  constructor
  · rintro ⟨N, hN, rfl, hNb, hNe, hv, hl⟩
    rw [h.entryAt_writeWord hM hT hN hi (hM.slotIndex_lt v (h.shaped N hN).1)] at hNe
    split at hNe
    · rename_i hTN
      obtain ⟨rfl, rfl⟩ := hTN
      exact Or.inr ⟨hNb, rfl, hNe.symm, rfl⟩
    · exact Or.inl ⟨N, hN, rfl, hNb, hNe, hv, hl⟩
  · rintro (⟨N, hN, rfl, hNb, hNe, hv, hl⟩ | ⟨hTb, rfl, rfl, rfl⟩)
    · refine ⟨N, hN, rfl, hNb, ?_, hv, hl⟩
      rw [h.entryAt_writeWord hM hT hN hi (hM.slotIndex_lt v (h.shaped N hN).1), if_neg]
      · exact hNe
      · rintro ⟨rfl, rfl⟩
        rw [hNe, hv] at hinv
        cases hinv
    · refine ⟨T, hT, rfl, hTb, ?_, hev, hel⟩
      rw [h.entryAt_writeWord hM hT hT hi hi, if_pos ⟨rfl, rfl⟩]

end Mode.Tree

namespace Machine

variable {M : Mode} {a : AllocatorRef} {r : SpaceRef} {held : List PhysPage}

/-- The walk of the machine reads the memory and changes nothing. -/
theorem walkTo_run (hM : M.Sound) (m : Machine) (v : VirtPage) :
    ∀ (levels : List Level), (∀ L ∈ levels, L.toNat ≤ M.topLevel.toNat) → ∀ t : PhysPage,
      (walkTo M v levels t).run m = .ok (M.walk m.memory v levels t) m
  | [], _, _ => rfl
  | L :: rest, hl, t => by
    rw [walkTo, bind_run_ok (slotOf_run hM m t (hl L (List.mem_cons_self ..)) v),
      bind_run_ok (readEntry_slot_run m t _), Mode.walk]
    cases hv : (M.entryAt m.memory t (M.slotIndex v L)).valid
    · simp only [Bool.not_false, ↓reduceIte]
      rfl
    · cases hleaf : (M.entryAt m.memory t (M.slotIndex v L)).isLeaf
      · simp only [Bool.not_true, Bool.false_eq_true, ↓reduceIte]
        exact walkTo_run hM m v rest (fun L' hL' => hl L' (List.mem_cons_of_mem _ hL')) _
      · simp only [Bool.not_true, Bool.false_eq_true, ↓reduceIte]
        rfl

/-- Looking up a page of a space that has its root is the lookup from the root, whatever the
memory holds, and changes nothing. -/
theorem findEntry_run_of_root (hM : M.Sound) {m : Machine} {b : FrameBox}
    (hroot : (m.spaceAt r).root = some b) (hmode : (m.spaceAt r).mode = M) (v : VirtPage) :
    (findEntry r v).run m = .ok (M.lookup m.memory b.ppn v) m := by
  obtain ⟨lr, hlr, hlist⟩ := hM.levelsUntil_eq (L := Level.leaf) (Nat.zero_le _)
  rw [findEntry, rootPage, bind_assoc, bind_run_ok (space_run m r), hroot]
  dsimp only
  rw [pure_bind, bind_run_ok (space_run m r), hmode, hlr, ofHalting_ok, pure_bind, hlist,
    walkTo_run hM m v _ ?_]
  · rfl
  · intro L hL
    exact Level.le_of_mem_downFrom _ (by simp [Level.leaf]) hL

/-- Looking up a page of a live space is the lookup from its root, and changes nothing. -/
theorem LiveSpace.findEntry_run (hM : M.Sound) {m : Machine} {root : TableNode}
    {nodes : List TableNode} (h : m.LiveSpace M a r held root nodes) (v : VirtPage) :
    (findEntry r v).run m = .ok (M.lookup m.memory root.box.ppn v) m :=
  findEntry_run_of_root hM h.root_box h.mode v

end Machine

end Paging
