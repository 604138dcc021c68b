import Paging.Proofs.SpaceTree
/-!
# Mapping keeps a space live

Each function of a mapping is specified on a live space (`Run.Spec`), whatever it ends in: it
returns, or the allocator refuses a table and it returns the refusal, or it halts. In every case
the space stays live and its tree grows out of the tree it had: no table is lost and no valid
entry changes (`Mode.Grows`).

* `descend_spec`: the walk towards the target level from the table of a page's block at some
  level reaches the table of the page's block at the target level, making the tables missing on
  the way; `tableFor_spec` starts it at the root.

Besides the space, the walk keeps every property of the memory and the tree that its two changes
keep (`Mode.WalkInv`): clearing a table held apart from the tree, and linking it below the page's
path. The mapping's own invariants are built on this in `MapProgress`.
-/

namespace Paging

open FrameAllocator Run

namespace Mode

/-- What the walk of the page `vpn` towards level `tgt` keeps besides the space: a property `I` of
the memory and the tree that the walk's two changes keep, clearing a table held apart from the
tree and linking it below the page's path above `tgt`. A leaf on that path stops the walk, and
then `X` holds. -/
structure WalkInv (M : Mode) (a : AllocatorRef) (vpn : VirtPage) (tgt : Nat)
    (I : Memory → List TableNode → Prop) (X : Prop) : Prop where
  fill : ∀ mem mem' nodes, M.Tree mem a nodes → (∀ T ∈ nodes, ∀ i : UInt64,
    i.toNat < 2 ^ M.indexWidth T.level → M.entryAt mem' T.box.ppn i = M.entryAt mem T.box.ppn i) →
    I mem nodes → I mem' nodes
  link : ∀ mem nodes (T U : TableNode), I mem nodes → M.Tree mem a nodes → T ∈ nodes →
    T.block = M.blockOf vpn T.level → tgt < T.level.toNat →
    (M.entryAt mem T.box.ppn (M.slotIndex vpn T.level)).valid = false → M.Shaped a U →
    U.level.toNat + 1 = T.level.toNat → U.block = M.childBlock T (M.slotIndex vpn T.level).toNat →
    (∀ V ∈ nodes, U.box.Apart V.box) →
    (∀ j : UInt64, j.toNat < 2 ^ M.indexWidth U.level → (M.entryAt mem U.box.ppn j).valid = false) →
    I (mem.writeWord (Machine.slotAddr M T.box.ppn (M.slotIndex vpn T.level))
      (Entry.child U.box.ppn).raw) (nodes ++ [U])
  stop : ∀ mem nodes (T : TableNode), I mem nodes → M.Tree mem a nodes → T ∈ nodes →
    T.block = M.blockOf vpn T.level → tgt < T.level.toNat →
    (M.entryAt mem T.box.ppn (M.slotIndex vpn T.level)).valid = true →
    (M.entryAt mem T.box.ppn (M.slotIndex vpn T.level)).isLeaf = true → X

/-- Every walk keeps what holds of everything. -/
theorem WalkInv.trivial (M : Mode) (a : AllocatorRef) (vpn : VirtPage) (tgt : Nat) :
    M.WalkInv a vpn tgt (fun _ _ => True) True :=
  ⟨fun _ _ _ _ _ _ => .intro, fun _ _ _ _ _ _ _ _ _ _ _ _ _ _ _ => .intro,
    fun _ _ _ _ _ _ _ _ _ _ => .intro⟩

end Mode

namespace Machine

variable {M : Mode} {a : AllocatorRef} {r : SpaceRef} {held : List PhysPage}

/-! ## Making a table -/

theorem newTable_run_ok (hM : M.Sound) {L : Level} (hL : L.toNat ≤ M.topLevel.toNat)
    {tf : UInt64} (htf : M.tableFrames L = .ok tf) {m : Machine} {ppn : PhysPage}
    {fr : FrameAllocator} (ha : (m.cellAt a).frames.allocFrames tf tf = .ok (ppn, fr)) :
    (newTable M a L).run m = .ok (.ok ⟨ppn, tf, a⟩)
      ((m.withCell a ⟨fr, (m.cellAt a).calls.push (.allocFrames tf tf (.ok ppn))⟩).withMemory
        (m.memory.fill (M.physAddrOf ppn) (2 ^ M.indexWidth L * 8) 0)) := by
  rw [newTable, htf, ofHalting_ok, pure_bind, newContiguousBox, bind_assoc,
    bind_run_ok (allocFrames_run_ok ha)]
  rw [hM.tableEntries_eq hL, ← hM.toNat_tableBytes hL]
  rfl

theorem newTable_run_error {L : Level} {tf : UInt64} (htf : M.tableFrames L = .ok tf)
    {m : Machine} {f : Fault} (ha : (m.cellAt a).frames.allocFrames tf tf = .error f) :
    (newTable M a L).run m = .ok (.error f) (m.withCell a
      ⟨(m.cellAt a).frames, (m.cellAt a).calls.push (.allocFrames tf tf (.error f))⟩) := by
  rw [newTable, htf, ofHalting_ok, pure_bind, newContiguousBox, bind_assoc,
    bind_run_ok (allocFrames_run_error ha)]
  rfl

/-- The frames handed out for a table of a level hold a table of that level. -/
theorem shaped_of_allocFrames (hM : M.Sound) {L : Level} (hL : L.toNat ≤ M.topLevel.toNat)
    {tf : UInt64} (htf : M.tableFrames L = .ok tf) {c : FrameAllocator}
    (hacc : Accounts c held) (hstop : c.stop.toNat ≤ 2 ^ 44) {ppn : PhysPage}
    {fr : FrameAllocator} (ha : c.allocFrames tf tf = .ok (ppn, fr)) (block : Nat) :
    M.Shaped a ⟨⟨ppn, tf, a⟩, L, block⟩ := by
  obtain ⟨tf', htf', htfv⟩ := hM.tableFrames_eq hL
  rw [htf, Except.ok.injEq] at htf'
  subst htf'
  have hal := allocFrames_aligned ha
  have hle := hacc.allocFrames_le_stop ha
  rw [htfv] at hal hle
  show L.toNat ≤ M.topLevel.toNat ∧ a = a ∧ tf.toNat = M.framesOf L ∧
    ppn.toNat % M.framesOf L = 0 ∧ ppn.toNat + M.framesOf L ≤ 2 ^ 44
  exact ⟨hL, rfl, htfv, hal, by rw [Mode.framesOf]; omega⟩

/-- The slot of the entry that covers a page in a table of the level. -/
theorem slotOf_run (hM : M.Sound) (m : Machine) (table : PhysPage) {L : Level}
    (hL : L.toNat ≤ M.topLevel.toNat) (vpn : VirtPage) :
    (slotOf M table L vpn).run m = .ok (slotAddr M table (M.slotIndex vpn L)) m := by
  rw [slotOf, hM.tableEntries_eq hL, ofHalting_ok, pure_bind, hM.indexOf_eq vpn hL, ofHalting_ok,
    pure_bind]
  rfl

/-- The entry read at a slot of a table is the table's entry. -/
theorem readEntry_slot_run (m : Machine) (t : PhysPage) (i : UInt64) :
    (readEntry (slotAddr M t i)).run m = .ok (M.entryAt m.memory t i) m :=
  rfl

/-! ## The walk down to the target level -/

/-- A mapping on the space is under way: the space is live with the tree `nodes`, which has grown
out of the tree `nodes₀` that it had in the memory `mem₀`. -/
def Mapping (M : Mode) (a : AllocatorRef) (r : SpaceRef) (held : List PhysPage) (root : TableNode)
    (mem₀ : Memory) (nodes₀ : List TableNode) (m : Machine) (nodes : List TableNode) : Prop :=
  m.LiveSpace M a r held root nodes ∧ M.Grows mem₀ (root :: nodes₀) m.memory (root :: nodes)

/-- The walk down to the page `vpn` met, in a node `T` of the tree `nodes` above the level `tgt`,
an invalid entry, and the allocator `a` refused the frames of the table that would go below it
with the fault `f`. -/
def WalkRefused (M : Mode) (a : AllocatorRef) (m : Machine) (nodes : List TableNode)
    (vpn : VirtPage) (tgt : Nat) (f : Fault) : Prop :=
  ∃ T ∈ nodes, T.block = M.blockOf vpn T.level ∧ tgt < T.level.toNat ∧
    (M.entryAt m.memory T.box.ppn (M.slotIndex vpn T.level)).valid = false ∧
    ∃ tf, M.tableFrames (T.level - 1) = .ok tf ∧ (m.cellAt a).frames.allocFrames tf tf = .error f

variable {root : TableNode} {mem₀ : Memory} {nodes₀ : List TableNode}
  {I : Memory → List TableNode → Prop} {X : Prop}

/-- The walk from the table of a page's block at level `tgt + k` through `k` levels makes the
tables missing on the way, and returns the table of the page's block at level `tgt`, or the
allocator's refusal of a table where one is missing; it keeps every invariant of the walk, and a
leaf on the way halts it. -/
theorem descend_spec (hM : M.Sound) (vpn : VirtPage) {tgt : Nat} (hI : M.WalkInv a vpn tgt I X) :
    ∀ (k : Nat) (L : Level) (table : PhysPage), L.toNat = tgt + k → Run.Spec
      (fun m => ∃ nodes, Mapping M a r held root mem₀ nodes₀ m nodes ∧ I m.memory (root :: nodes) ∧
        ∃ T ∈ root :: nodes, T.box.ppn = table ∧ T.level = L ∧ T.block = M.blockOf vpn L)
      (descend r M a vpn (Level.downFrom L k) table)
      (fun res m => ∃ nodes, Mapping M a r held root mem₀ nodes₀ m nodes ∧
        I m.memory (root :: nodes) ∧
        (∀ t, res = .ok t → ∃ U ∈ root :: nodes, U.box.ppn = t ∧ U.level.toNat = tgt ∧
          U.block = M.blockOf vpn U.level) ∧
        ∀ f, res = .error f → f.component = .frames ∧ WalkRefused M a m (root :: nodes) vpn tgt f)
      (fun m => (∃ nodes, Mapping M a r held root mem₀ nodes₀ m nodes ∧
        I m.memory (root :: nodes)) ∧ X) := by
  intro k
  induction k with
  | zero =>
    rintro L table hL m ⟨nodes, hm, hi, T, hT, rfl, rfl, hb⟩
    exact ⟨nodes, hm, hi, fun t ht => ⟨T, hT, Except.ok.inj ht, hL, hb⟩, fun f hf => by cases hf⟩
  | succ k ih =>
    rintro L table hk m ⟨nodes, ⟨hl, hg⟩, hIm, T, hT, rfl, rfl, hb⟩
    have hTtop : T.level.toNat ≤ M.topLevel.toNat := (hl.tree.shaped T hT).1
    have hsub : (T.level - 1).toNat = T.level.toNat - 1 := Level.toNat_sub_one (by omega)
    have htgt : tgt < T.level.toNat := by omega
    have hi := hM.slotIndex_lt vpn hTtop
    have hchild := hM.childBlock_slotIndex vpn (T := T) (by omega) hTtop hb
    -- the rest of the walk, from a node of the level below
    have hrest : ∀ m' nodes' (U : TableNode),
        Mapping M a r held root mem₀ nodes₀ m' nodes' → I m'.memory (root :: nodes') →
        U ∈ root :: nodes' → U.level = T.level - 1 → U.block = M.blockOf vpn (T.level - 1) →
        Ends (fun res m => ∃ nodes, Mapping M a r held root mem₀ nodes₀ m nodes ∧
          I m.memory (root :: nodes) ∧
          (∀ t, res = .ok t → ∃ U ∈ root :: nodes, U.box.ppn = t ∧ U.level.toNat = tgt ∧
            U.block = M.blockOf vpn U.level) ∧
          ∀ f, res = .error f → f.component = .frames ∧
            WalkRefused M a m (root :: nodes) vpn tgt f)
          (fun m => (∃ nodes, Mapping M a r held root mem₀ nodes₀ m nodes ∧
            I m.memory (root :: nodes)) ∧ X)
          ((descend r M a vpn (Level.downFrom (T.level - 1) k) U.box.ppn).run m') :=
      fun m' nodes' U hm' hI' hU hUl hUb =>
        ih (T.level - 1) U.box.ppn (by omega) m' ⟨nodes', hm', hI', U, hU, rfl, hUl, hUb⟩
    rw [Level.downFrom_succ, descend, bind_run_ok (slotOf_run hM m _ hTtop vpn),
      bind_run_ok (readEntry_slot_run m _ _)]
    by_cases hv : (M.entryAt m.memory T.box.ppn (M.slotIndex vpn T.level)).valid
    · rw [if_neg (by simp [hv])]
      by_cases hleaf : (M.entryAt m.memory T.box.ppn (M.slotIndex vpn T.level)).isLeaf
      · -- a leaf above the target level halts the walk
        rw [if_pos hleaf, halt_run]
        exact ⟨⟨nodes, ⟨hl.log _, hg⟩, hIm⟩, hI.stop _ _ T hIm hl.tree hT hb htgt hv hleaf⟩
      · -- a pointer leads to the node of the page's block one level down
        rw [if_neg hleaf]
        obtain ⟨U, hU, hUl, hUb, hUe⟩ :=
          hl.tree.pointer T hT _ hi hv (Bool.eq_false_iff.2 hleaf)
        rw [hl.tree.ppn_of_pointer hU hUe]
        exact hrest m nodes U ⟨hl, hg⟩ hIm hU (Level.eq_sub_one_of_succ hUl) (hUb.trans hchild)
    · -- an invalid entry: the table below is made and linked
      rw [if_pos (by simp [Bool.eq_false_iff.2 hv])]
      obtain ⟨tf, htf, htfv⟩ := hM.tableFrames_eq (L := T.level - 1) (by omega)
      cases ha : (m.cellAt a).frames.allocFrames tf tf with
      | error f =>
        rw [bind_run_ok (newTable_run_error htf ha)]
        refine ⟨nodes, ⟨hl.withCell_calls _, hg⟩, hIm, fun t ht => (by cases ht), fun f' hf => ?_⟩
        cases hf
        refine ⟨component_of_allocFrames ha, T, hT, hb, htgt, Bool.eq_false_iff.2 hv, tf, htf, ?_⟩
        rw [cellAt_withCell_self m hl.lt_allocators]
        exact ha
      | ok p =>
        obtain ⟨ppn, fr⟩ := p
        rw [bind_run_ok (newTable_run_ok hM (by omega) htf ha)]
        dsimp only
        rw [bind_run_ok (writeEntry_run _ _ _), bind_run_ok (addTable_run _ _ _)]
        let N : TableNode :=
          ⟨⟨ppn, tf, a⟩, T.level - 1, M.childBlock T (M.slotIndex vpn T.level).toNat⟩
        have hN : M.Shaped a N :=
          shaped_of_allocFrames hM (by omega) htf hl.accounts hl.stop_le ha _
        have h1 := hl.allocTable ha ((m.cellAt a).calls.push (.allocFrames tf tf (.ok ppn)))
        have hheld : ∀ p ∈ N.box.frameList, p ∈ held ++ frameRun ppn tf.toNat :=
          fun p hp => List.mem_append_right _ hp
        have h2 := h1.fill hM hN hheld
        have hfill := h1.entryAt_fill hM hN hheld
        rw [memory_withCell] at hfill
        have hinv : (M.entryAt (m.memory.fill (M.physAddrOf N.box.ppn)
            (2 ^ M.indexWidth N.level * 8) 0) T.box.ppn (M.slotIndex vpn T.level)).valid =
              false := by
          rw [hfill T hT _ hi]
          exact Bool.eq_false_iff.2 hv
        have hempty : ∀ j : UInt64, j.toNat < 2 ^ M.indexWidth N.level →
            (M.entryAt (m.memory.fill (M.physAddrOf N.box.ppn) (2 ^ M.indexWidth N.level * 8) 0)
              N.box.ppn j).valid = false := by
          intro j hj
          rw [hM.entryAt_fill_self _ hN hj]
          rfl
        have h2' : LiveSpace M a r (held ++ N.box.frameList) _ root nodes := h2.1
        have h3 := h2'.link hM hT hi hinv hN (by simp only [N]; omega) rfl hempty
        -- the invariant survives the clearing of the new table and its link
        have hIfill := hI.fill _ _ _ hl.tree hfill hIm
        have hIlink := hI.link _ _ T N hIfill h2'.tree hT hb htgt hinv hN
          (by simp only [N]; omega) rfl (h2'.apart_of_held hN.frames_pos hN.end_le_size
            fun p hp => List.mem_append_right held hp) hempty
        exact hrest _ (nodes ++ [N]) N ⟨h3.1, (hg.trans h2.2).trans h3.2⟩ hIlink
          (List.mem_cons_of_mem _ (List.mem_append_right _ (List.mem_singleton_self N))) rfl hchild

/-- The table of a page's block at a level of the mode, made with the tables above it where they
are missing, or the allocator's refusal of a table. -/
theorem tableFor_spec (hM : M.Sound) {L : Level} (hL : L.toNat ≤ M.topLevel.toNat)
    (vpn : VirtPage) (hI : M.WalkInv a vpn L.toNat I X) : Run.Spec
    (fun m => ∃ nodes, Mapping M a r held root mem₀ nodes₀ m nodes ∧ I m.memory (root :: nodes))
    (tableFor r L vpn)
    (fun res m => ∃ nodes, Mapping M a r held root mem₀ nodes₀ m nodes ∧
      I m.memory (root :: nodes) ∧
      (∀ t, res = .ok t → ∃ U ∈ root :: nodes, U.box.ppn = t ∧ U.level = L ∧
        U.block = M.blockOf vpn L) ∧
      ∀ f, res = .error f → f.component = .frames ∧
        WalkRefused M a m (root :: nodes) vpn L.toNat f)
    (fun m => (∃ nodes, Mapping M a r held root mem₀ nodes₀ m nodes ∧
      I m.memory (root :: nodes)) ∧ X) := by
  rintro m ⟨nodes, ⟨hl, hg⟩, hIm⟩
  rw [tableFor, bind_run_ok (space_run m r)]
  simp only [hl.mode, hl.alloc, hl.root_box, Option.map_some, Option.getD_some]
  obtain ⟨rng, hrng, hlist⟩ := hM.levelsBefore_eq hL
  have hroot : root.block = M.blockOf vpn M.topLevel := by
    rw [hl.root_block, Mode.blockOf_topLevel]
  rw [hrng, ofHalting_ok, pure_bind, hlist]
  refine ends_bind (descend_spec hM vpn hI _ M.topLevel root.box.ppn (by omega) m
    ⟨nodes, ⟨hl, hg⟩, hIm, root, List.mem_cons_self, rfl, hl.root_level, hroot⟩) ?_
  rintro res m' ⟨nodes', hm', hIm', hres, herr⟩
  cases res with
  | error f => exact ⟨nodes', hm', hIm', fun t ht => (by cases ht), herr⟩
  | ok t =>
    obtain ⟨U, hU, rfl, hUl, hUb⟩ := hres t rfl
    have hUL : U.level = L := UInt8.toNat_inj.1 hUl
    rw [hM.tableEntries_eq hL, ofHalting_ok]
    refine ⟨nodes', hm', hIm', fun t' ht' => ⟨U, hU, Except.ok.inj ht', hUL, ?_⟩,
      fun f hf => by cases hf⟩
    rw [hUb, hUL]

end Machine

end Paging
