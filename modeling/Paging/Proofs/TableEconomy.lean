import Paging.Proofs.TableCount
import Paging.Proofs.MapRefinement
/-!
# One table for each block that a leaf needs

Over a history of mapping requests that all returned success (`Machine.Mapped`), the leaves of a
space are those that the plans of the requests ask for (`Machine.Planned`, `Mapped.planned`): a
page has a leaf of level `L` just when a segment of level `L` of some plan holds it. Every pointer
of the tree still leads to a leaf, and in such a tree the tables of a level below the root serve
just the blocks one level up that hold a page with a leaf at that level or below
(`Tree.table_iff_leaf_below`). So the tables are exactly those the plans need
(`Planned.keys_eq`), and the frames the space owns are the root's and one table's frames for each
of them (`Planned.toNat_ownedFrames`), whatever the order of the requests.

A request that returns success grows the tree, and a table that a growing tree adds hangs below
no entry that was valid before (`Grows.invalid_above_added`).

The main statement is `Machine.tables_follow_mapped_blocks`.
-/

namespace Paging

open FrameAllocator Run

namespace Mode.Tree

variable {M : Mode} {mem : Memory} {a : AllocatorRef} {root : TableNode} {nodes : List TableNode}

/-- In a tree whose pointers all lead to leaves, the tables of a level below the root serve just
the blocks one level up that hold a page with a leaf at that level or below. -/
theorem table_iff_leaf_below (hM : M.Sound) (h : M.Tree mem a (root :: nodes))
    (hroot : root.level = M.topLevel) (hbelow : ∀ U ∈ nodes, U.level.toNat < M.topLevel.toNat)
    (hpop : M.Populated mem (root :: nodes)) {L : Level} (hL : L.toNat < M.topLevel.toNat)
    (b : Nat) :
    (∃ T ∈ nodes, T.level = L ∧ T.block = b) ↔
      ∃ w : VirtPage, w.toNat < 2 ^ M.tableShift M.topLevel ∧
        w.toNat / 2 ^ M.tableShift L = b ∧
        ∃ e L', M.LeafAt mem (root :: nodes) w e L' ∧ L'.toNat ≤ L.toNat := by
  constructor
  · rintro ⟨T, hT, rfl, rfl⟩
    have hTtop : T.level ≠ M.topLevel := ne_of_apply_ne UInt8.toNat (hbelow T hT).ne
    -- the pointer above the table leads to a leaf of a page of the table's block
    obtain ⟨P, hP, hPl, i, hi, hTb, hPe⟩ := h.parent T (List.mem_cons_of_mem _ hT) hTtop
    obtain ⟨w, hw, e, L', hleaf⟩ :=
      hpop P hP i hi (by rw [hPe]; exact Entry.valid_child _)
        (by rw [hPe]; exact Entry.isLeaf_child _)
    have hwT := h.block_of_parent hM hP hPl hTb hw
    refine ⟨w, hw.1, by rw [hwT, blockOf_of_lt hw.1], e, L', hleaf, ?_⟩
    -- a leaf above the table would stand where the walk of the page points down to it
    by_contra hlt
    obtain ⟨N, hN, rfl, hNb, hNe, -, hNl⟩ := hleaf
    obtain ⟨U, -, -, -, hUe⟩ := h.pointer_of_below hM hN hNb (List.mem_cons_of_mem _ hT) hwT
      (by omega)
    rw [hUe] at hNe
    rw [← hNe, Entry.isLeaf_child] at hNl
    cases hNl
  · rintro ⟨w, hw, rfl, e, L', hleaf, hle⟩
    exact h.exists_table_of_leaf hM hroot hw hleaf hle hL

end Mode.Tree

namespace Mode

variable {M : Mode} {a : AllocatorRef}

/-- The number of tables of level `L` that a plan needs: the blocks of level `L + 1` that hold a
page which the plan maps at level `L` or below. -/
def neededAt (M : Mode) (segs : List Segment) (L : Nat) : Nat :=
  ((M.neededTables segs).filter fun p => p.1 = L).card

/-- The tables a plan needs do not depend on the order of its segments. -/
theorem neededTables_perm {segs segs' : List Segment} (h : segs.Perm segs') :
    M.neededTables segs = M.neededTables segs' := by
  simp only [neededTables, List.toFinset_filter, List.toFinset_eq_of_perm _ _ h]

/-- Summed over tables with distinct keys below the root, the frames of the tables count level
by level: for each level, the frames of one table times the number of tables of that level. -/
theorem sum_framesOf_eq {nodes : List TableNode} (hnd : (nodes.map TableNode.key).Nodup)
    (hbelow : ∀ U ∈ nodes, U.level.toNat < M.topLevel.toNat) :
    (nodes.map fun T => M.framesOf T.level).sum =
      ∑ L ∈ Finset.range M.topLevel.toNat, M.framesOf L.toUInt8 *
        ((nodes.map TableNode.key).toFinset.filter fun p => p.1 = L).card := by
  have hkey : (nodes.map fun T => M.framesOf T.level) =
      (nodes.map TableNode.key).map fun p => M.framesOf p.1.toUInt8 := by
    rw [List.map_map]
    exact List.map_congr_left fun T _ => by simp [TableNode.key]
  have hmaps :
      ∀ p ∈ (nodes.map TableNode.key).toFinset, p.1 ∈ Finset.range M.topLevel.toNat := by
    intro p hp
    obtain ⟨T, hT, rfl⟩ := List.mem_map.1 (List.mem_toFinset.1 hp)
    exact Finset.mem_range.2 (hbelow T hT)
  rw [hkey, ← List.sum_toFinset _ hnd, ← Finset.sum_fiberwise_of_maps_to (g := Prod.fst) hmaps]
  refine Finset.sum_congr rfl fun L _ => ?_
  rw [Finset.sum_congr rfl fun p hp => by rw [(Finset.mem_filter.1 hp).2], Finset.sum_const,
    smul_eq_mul, Nat.mul_comm]

/-- A table that a growing tree adds hangs below no entry that was valid: the entry of a table of
the old tree that covers the new table's block was invalid before. -/
theorem Grows.invalid_above_added {mem₀ mem : Memory} {nodes₀ added : List TableNode}
    (h₀ : M.Tree mem₀ a nodes₀) (h : M.Tree mem a (nodes₀ ++ added))
    (hg : M.Grows mem₀ nodes₀ mem (nodes₀ ++ added)) {T : TableNode} (hT : T ∈ added)
    {P : TableNode} (hP : P ∈ nodes₀) {i : UInt64} (hi : i.toNat < 2 ^ M.indexWidth P.level)
    (hPl : P.level.toNat = T.level.toNat + 1) (hb : M.childBlock P i.toNat = T.block) :
    (M.entryAt mem₀ P.box.ppn i).valid = false := by
  have hnd : (nodes₀ ++ added).Nodup := List.Nodup.of_map _ h.nodup_keys
  have hout : T ∉ nodes₀ := fun hT₀ => (List.nodup_append.1 hnd).2.2 T hT₀ T hT rfl
  cases hv : (M.entryAt mem₀ P.box.ppn i).valid with
  | false => rfl
  | true =>
    exfalso
    cases hleaf : (M.entryAt mem₀ P.box.ppn i).isLeaf with
    | false =>
      -- an old pointer at the slot leads to an old table of the same level and block
      obtain ⟨U, hU, hUl, hUb, -⟩ := h₀.pointer P hP i hi hv hleaf
      have hUT : U = T := h.eq_of_level_block (List.mem_append_left _ hU)
        (List.mem_append_right _ hT) (UInt8.toNat_inj.1 (by omega)) (hUb.trans hb)
      exact hout (hUT ▸ hU)
    | true =>
      -- the new table hangs from that same slot, which kept its old leaf
      have hPtop := (h₀.shaped P hP).1
      have hTtop : T.level ≠ M.topLevel := fun he => by
        rw [he] at hPl
        omega
      obtain ⟨P', hP', hP'l, i', hi', hTb', hP'e⟩ :=
        h.parent T (List.mem_append_right _ hT) hTtop
      obtain ⟨hbb, hii⟩ :=
        childBlock_inj (T := P) (U := P') (UInt8.toNat_inj.1 (by omega)) hi hi' (hb.trans hTb')
      obtain rfl := h.eq_of_level_block (List.mem_append_left _ hP) hP'
        (UInt8.toNat_inj.1 (by omega)) hbb
      obtain rfl : i = i' := UInt64.toNat_inj.1 hii
      rw [hg.keeps_valid P hP i hi hv] at hP'e
      rw [hP'e, Entry.isLeaf_child] at hleaf
      cases hleaf

end Mode

namespace Machine

/-- The segments of the request's plan; none when the mode refuses its range. -/
def MapRequest.plan (M : Mode) (q : MapRequest) : List Segment :=
  match M.segments q.vpn q.ppn q.n with
  | .ok segs => segs
  | .error _ => []

/-- The leaves of the tree `nodes` in `mem` are the ones the plans of the requests ask for: every
segment of a plan lies in the space, and a page below the limit of the mode has a leaf of level
`L` just when a segment of level `L` of some request's plan holds it. -/
structure Planned (M : Mode) (mem : Memory) (nodes : List TableNode) (reqs : List MapRequest) :
    Prop where
  inside : ∀ q ∈ reqs, ∀ s ∈ q.plan M,
    s.start.toNat < s.stop.toNat ∧ s.stop.toNat ≤ 2 ^ M.tableShift M.topLevel
  leaves : ∀ w : VirtPage, w.toNat < 2 ^ M.tableShift M.topLevel → ∀ L : Level,
    (∃ e, M.LeafAt mem nodes w e L) ↔
      ∃ q ∈ reqs, ∃ s ∈ q.plan M, s.Holds w.toNat ∧ s.level = L

variable {M : Mode} {a : AllocatorRef} {r : SpaceRef} {held : List PhysPage} {m : Machine}
  {reqs : List MapRequest}

/-- A request that returns success on a live space whose pointers all lead to leaves keeps the
space live, grows its tree, keeps every pointer leading to a leaf, and adds the leaves of its
plan to those of the requests before it. -/
theorem LiveSpace.map_planned (hM : M.Sound) {root : TableNode} {nodes : List TableNode}
    (hl : m.LiveSpace M a r held root nodes) (hpop : M.Populated m.memory (root :: nodes))
    (hP : Planned M m.memory (root :: nodes) reqs) (q : MapRequest) {m' : Machine}
    (hrun : (map r q.vpn q.ppn q.n q.flags).run m = .ok q.res m') (hres : q.res = .ok ()) :
    ∃ nodes', m'.LiveSpace M a r held root nodes' ∧
      M.Grows m.memory (root :: nodes) m'.memory (root :: nodes') ∧
      M.Populated m'.memory (root :: nodes') ∧
      Planned M m'.memory (root :: nodes') (reqs ++ [q]) := by
  rcases hl.map_returns hM hrun with ⟨f, -, hres', -⟩ | ⟨hc, segs, hplan, hs, -, hok, -⟩
  · -- a refused range returns the refusal, not success
    rw [hres] at hres'
    cases hres'
  · have hqplan : q.plan M = segs := by rw [MapRequest.plan, hs]
    obtain ⟨nodes', ⟨hl', hg⟩, hp⟩ := hok hres
    let c := MapCall.ofAccepted hM hl q.vpn q.ppn q.n q.flags hc hplan
    refine ⟨nodes', hl', hg, hp.populated hM hpop fun _ hw => hw, ⟨?_, ?_⟩⟩
    · intro q' hq' s hs'
      rcases List.mem_append.1 hq' with hq' | hq'
      · exact hP.inside q' hq' s hs'
      · obtain rfl := List.mem_singleton.1 hq'
        rw [hqplan] at hs'
        exact ⟨c.start_lt_stop s hs', c.stop_le hs'⟩
    · intro w hw L
      constructor
      · rintro ⟨e, hleaf⟩
        rcases hp.leafAt_cases hM hl'.tree hw hleaf with hold | ⟨s, hs', hsw⟩
        · obtain ⟨q', hq', s, hs', hsw, hsl⟩ := (hP.leaves w hw L).1 ⟨e, hold⟩
          exact ⟨q', List.mem_append_left _ hq', s, hs', hsw, hsl⟩
        · -- a new leaf is the one the call wrote for the page, at the level of its segment
          obtain ⟨-, rfl⟩ := hl'.tree.leafAt_unique hM hl.root_level hl.root_block
            (hp.leaf w ⟨s, hs', hsw⟩ s hs' hsw) hleaf
          exact ⟨q, List.mem_append_right _ (List.mem_singleton_self _), s, hqplan ▸ hs', hsw,
            rfl⟩
      · rintro ⟨q', hq', s, hs', hsw, rfl⟩
        rcases List.mem_append.1 hq' with hq' | hq'
        · obtain ⟨e, hold⟩ := (hP.leaves w hw _).2 ⟨q', hq', s, hs', hsw, rfl⟩
          exact ⟨e, hl.tree.leafAt_of_grows hM hg hold⟩
        · obtain rfl := List.mem_singleton.1 hq'
          rw [hqplan] at hs'
          exact ⟨_, hp.leaf w ⟨s, hs', hsw⟩ s hs' hsw⟩

/-- Over a history of requests that all returned success, the space stays live, every pointer
of its tree leads to a leaf, and its leaves are those of the plans of the requests. -/
theorem Mapped.planned (hM : M.Sound) (h : Mapped M a r held m reqs)
    (hok : ∀ q ∈ reqs, q.res = .ok ()) :
    ∃ root nodes, m.LiveSpace M a r held root nodes ∧ M.Populated m.memory (root :: nodes) ∧
      Planned M m.memory (root :: nodes) reqs := by
  induction h with
  | new hlt hacc hstop hrun =>
    obtain ⟨root, hf⟩ := FreshSpace.new hM hlt hacc hstop hrun
    refine ⟨root, [], hf.live, hf.populated, ⟨fun q hq => absurd hq nofun, fun w _ L => ?_⟩⟩
    exact ⟨fun ⟨e, hleaf⟩ => absurd hleaf (hf.not_leafAt hM w e L),
      fun ⟨q, hq, _⟩ => absurd hq nofun⟩
  | map q _ hrun ih =>
    obtain ⟨root, nodes, hl, hpop, hP⟩ := ih fun q' hq' => hok q' (List.mem_append_left _ hq')
    obtain ⟨nodes', hl', -, hpop', hP'⟩ :=
      hl.map_planned hM hpop hP q hrun (hok q (List.mem_append_right _ (List.mem_singleton_self _)))
    exact ⟨root, nodes', hl', hpop', hP'⟩

/-- The segments of the plans of the requests, one request after the other. -/
def MapRequest.plans (M : Mode) (reqs : List MapRequest) : List Segment :=
  reqs.flatMap (MapRequest.plan M)

/-- The tables below the root of a space whose pointers all lead to leaves, and whose leaves are
those of the plans of the requests, are the tables that the plans need. -/
theorem Planned.keys_eq (hM : M.Sound) {root : TableNode} {nodes : List TableNode}
    (hl : m.LiveSpace M a r held root nodes) (hpop : M.Populated m.memory (root :: nodes))
    (hP : Planned M m.memory (root :: nodes) reqs) :
    (nodes.map TableNode.key).toFinset = M.neededTables (MapRequest.plans M reqs) := by
  have hsegs : ∀ s ∈ MapRequest.plans M reqs, s.start.toNat < s.stop.toNat := fun s hs => by
    obtain ⟨q, hq, hs⟩ := List.mem_flatMap.1 hs
    exact (hP.inside q hq s hs).1
  ext p
  rw [List.mem_toFinset, List.mem_map, Mode.mem_neededTables hsegs]
  constructor
  · rintro ⟨T, hT, rfl⟩
    have hL := hl.below_root T hT
    obtain ⟨w, hw, hwb, e, L', hleaf, hle⟩ := (hl.tree.table_iff_leaf_below hM hl.root_level
      hl.below_root hpop hL T.block).1 ⟨T, hT, rfl, rfl⟩
    obtain ⟨q, hq, s, hs, hsw, rfl⟩ := (hP.leaves w hw _).1 ⟨e, hleaf⟩
    exact ⟨T.level, hL, w.toNat, ⟨s, List.mem_flatMap.2 ⟨q, hq, hs⟩, hsw, hle⟩, by
      rw [TableNode.key, hwb]⟩
  · rintro ⟨L, hL, w, ⟨s, hs, hsw, hle⟩, rfl⟩
    obtain ⟨q, hq, hs⟩ := List.mem_flatMap.1 hs
    -- the page lies in the space, so it is a page number that the tree has a leaf for
    have hw : w < 2 ^ M.tableShift M.topLevel := by
      have := (hP.inside q hq s hs).2
      have := hsw.2
      omega
    have hv := hM.toNat_toUInt64_of_lt hw
    rw [← hv] at hsw hw
    obtain ⟨e, hleaf⟩ := (hP.leaves _ hw s.level).2 ⟨q, hq, s, hs, hsw, rfl⟩
    obtain ⟨T, hT, hTl, hTb⟩ := (hl.tree.table_iff_leaf_below hM hl.root_level hl.below_root
      hpop hL _).2 ⟨_, hw, rfl, e, s.level, hleaf, hle⟩
    exact ⟨T, hT, by rw [TableNode.key, hTl, hTb, hv]⟩

/-- The frames a live space owns: its root's, and for each table below it as many as a table of
its level takes. -/
theorem LiveSpace.toNat_ownedFrames_eq_sum {root : TableNode} {nodes : List TableNode}
    (h : m.LiveSpace M a r held root nodes) :
    (m.spaceAt r).ownedFrames.toNat =
      M.framesOf M.topLevel + (nodes.map fun T => M.framesOf T.level).sum := by
  have hframes : ∀ T ∈ root :: nodes, T.box.frames.toNat = M.framesOf T.level :=
    fun T hT => (h.tree.shaped T hT).2.2.1
  have hsum : ((nodes.map TableNode.box).map fun b => b.frames.toNat).sum =
      (nodes.map fun T => M.framesOf T.level).sum := by
    rw [List.map_map]
    exact congrArg List.sum (List.map_congr_left fun T hT => hframes T (List.mem_cons_of_mem _ hT))
  rw [h.toNat_ownedFrames, h.releaseOrder_eq, List.length_append, FrameBox.length_flatMap_frameList,
    List.map_reverse, List.sum_reverse, hsum, FrameBox.frameList, length_frameRun,
    hframes root List.mem_cons_self, h.root_level, Nat.add_comm]

/-- The frames a space owns after requests that all returned success: its root's, and for each
level below the root one table's frames for each block that the plans need a table of that level
for. -/
theorem Planned.toNat_ownedFrames (hM : M.Sound) {root : TableNode} {nodes : List TableNode}
    (hl : m.LiveSpace M a r held root nodes) (hpop : M.Populated m.memory (root :: nodes))
    (hP : Planned M m.memory (root :: nodes) reqs) :
    (m.spaceAt r).ownedFrames.toNat = M.framesOf M.topLevel +
      ∑ L ∈ Finset.range M.topLevel.toNat,
        M.framesOf L.toUInt8 * M.neededAt (MapRequest.plans M reqs) L := by
  have hnd := hl.tree.nodup_keys
  rw [List.map_cons, List.nodup_cons] at hnd
  rw [hl.toNat_ownedFrames_eq_sum, Mode.sum_framesOf_eq hnd.2 hl.below_root,
    hP.keys_eq hM hl hpop]
  rfl

/-- Over a history of mapping requests on a space of a sound mode that all returned success, the
tables below the root are one for each block that a leaf needs.

* No two tables share a level and a block, and for each level `L` below the root the tables of
  level `L` are those of the blocks of level `L + 1` (the pages `w` with one `w / 2 ^ tableShift L`)
  that hold a page mapped by a leaf at level `L` or below;
* these are the tables that the plans of the requests need (`Mode.neededTables`);
* so the space owns the root's frames and, for each level below the root, one table's frames
  (`Mode.framesOf`, as `tableFrames` counts them) for each such block;
* which is the same for every order of the requests;
* and a further request that returns success adds tables only under entries that were invalid
  before it: never one for a slot that already held a valid entry. -/
theorem tables_follow_mapped_blocks (hM : M.Sound) (h : Mapped M a r held m reqs)
    (hok : ∀ q ∈ reqs, q.res = .ok ()) :
    ∃ root nodes, m.LiveSpace M a r held root nodes ∧
      (nodes.map TableNode.key).Nodup ∧
      (∀ L : Level, L.toNat < M.topLevel.toNat → ∀ b : Nat,
        (∃ T ∈ nodes, T.level = L ∧ T.block = b) ↔
          ∃ w : VirtPage, w.toNat < 2 ^ M.tableShift M.topLevel ∧
            w.toNat / 2 ^ M.tableShift L = b ∧
            ∃ e L', M.LeafAt m.memory (root :: nodes) w e L' ∧ L'.toNat ≤ L.toNat) ∧
      (nodes.map TableNode.key).toFinset = M.neededTables (MapRequest.plans M reqs) ∧
      (m.spaceAt r).ownedFrames.toNat = M.framesOf M.topLevel +
        ∑ L ∈ Finset.range M.topLevel.toNat,
          M.framesOf L.toUInt8 * M.neededAt (MapRequest.plans M reqs) L ∧
      (∀ m' reqs', Mapped M a r held m' reqs' → (∀ q ∈ reqs', q.res = .ok ()) →
        reqs'.Perm reqs → (m'.spaceAt r).ownedFrames = (m.spaceAt r).ownedFrames) ∧
      ∀ vpn ppn n flags m', (map r vpn ppn n flags).run m = .ok (.ok ()) m' →
        ∃ added, m'.LiveSpace M a r held root (nodes ++ added) ∧
          ∀ T ∈ added, ∀ P ∈ root :: nodes, ∀ i : UInt64,
            i.toNat < 2 ^ M.indexWidth P.level → P.level.toNat = T.level.toNat + 1 →
            M.childBlock P i.toNat = T.block →
            (M.entryAt m.memory P.box.ppn i).valid = false := by
  obtain ⟨root, nodes, hl, hpop, hP⟩ := h.planned hM hok
  have hnd := hl.tree.nodup_keys
  rw [List.map_cons, List.nodup_cons] at hnd
  refine ⟨root, nodes, hl, hnd.2,
    fun L hL b => hl.tree.table_iff_leaf_below hM hl.root_level hl.below_root hpop hL b,
    hP.keys_eq hM hl hpop, hP.toNat_ownedFrames hM hl hpop, ?_, ?_⟩
  · -- another order needs the same tables, so owns as many frames
    intro m' reqs' h' hok' hperm
    obtain ⟨root', nodes', hl', hpop', hP'⟩ := h'.planned hM hok'
    have hsame : M.neededTables (MapRequest.plans M reqs') =
        M.neededTables (MapRequest.plans M reqs) :=
      Mode.neededTables_perm (hperm.flatMap_right _)
    apply UInt64.toNat_inj.1
    rw [hP'.toNat_ownedFrames hM hl' hpop', hP.toNat_ownedFrames hM hl hpop]
    simp only [Mode.neededAt, hsame]
  · -- the tree of the next call grows out of this one
    intro vpn ppn n flags m' hrun
    obtain ⟨nodes', hl', hg, -⟩ :=
      hl.map_planned hM hpop hP ⟨vpn, ppn, n, flags, .ok ()⟩ hrun rfl
    obtain ⟨added, hadd⟩ := hg.keeps_nodes
    rw [List.cons_append, List.cons.injEq] at hadd
    rw [← hadd.2] at hl' hg
    refine ⟨added, hl', fun T hT P hP i hi hPl hb => ?_⟩
    rw [← List.cons_append] at hg
    exact hg.invalid_above_added hl.tree (by rw [List.cons_append]; exact hl'.tree) hT hP hi hPl hb

/-- A space of mode Sv39 made over an allocator of 256 frames, after the request that maps the
pages `[0x100, 0x300)` onto the frames from `0x80100`: its tables are those that the request's
plan needs, and it owns four frames, the root's and one for each of three tables below it. -/
theorem tables_follow_mapped_blocks_after_one_request :
    ∃ m' m'', (newSpace .sv39 ⟨0⟩).run
        { allocators := #[⟨FrameAllocator.new 0x80000 0x80100, #[]⟩] } = .ok (.ok ⟨0⟩) m' ∧
      (map ⟨0⟩ 0x100 0x80100 0x200 Flags.rwx).run m' = .ok (.ok ()) m'' ∧
      (∀ q ∈ [(⟨0x100, 0x80100, 0x200, Flags.rwx, .ok ()⟩ : MapRequest)], q.res = .ok ()) ∧
      (m''.spaceAt ⟨0⟩).ownedFrames = 4 ∧
      ∃ root nodes, m''.LiveSpace .sv39 ⟨0⟩ ⟨0⟩ [] root nodes ∧
        (nodes.map TableNode.key).Nodup ∧
        (∀ L : Level, L.toNat < Mode.sv39.topLevel.toNat → ∀ b : Nat,
          (∃ T ∈ nodes, T.level = L ∧ T.block = b) ↔
            ∃ w : VirtPage, w.toNat < 2 ^ Mode.sv39.tableShift Mode.sv39.topLevel ∧
              w.toNat / 2 ^ Mode.sv39.tableShift L = b ∧
              ∃ e L', Mode.sv39.LeafAt m''.memory (root :: nodes) w e L' ∧
                L'.toNat ≤ L.toNat) ∧
        (nodes.map TableNode.key).toFinset = Mode.sv39.neededTables
          (MapRequest.plans .sv39 [⟨0x100, 0x80100, 0x200, Flags.rwx, .ok ()⟩]) ∧
        (m''.spaceAt ⟨0⟩).ownedFrames.toNat = Mode.sv39.framesOf Mode.sv39.topLevel +
          ∑ L ∈ Finset.range Mode.sv39.topLevel.toNat, Mode.sv39.framesOf L.toUInt8 *
            Mode.sv39.neededAt
              (MapRequest.plans .sv39 [⟨0x100, 0x80100, 0x200, Flags.rwx, .ok ()⟩]) L ∧
        (∀ m₃ reqs', Mapped .sv39 ⟨0⟩ ⟨0⟩ [] m₃ reqs' →
          (∀ q ∈ reqs', q.res = .ok ()) →
          reqs'.Perm [⟨0x100, 0x80100, 0x200, Flags.rwx, .ok ()⟩] →
          (m₃.spaceAt ⟨0⟩).ownedFrames = (m''.spaceAt ⟨0⟩).ownedFrames) ∧
        ∀ vpn ppn n flags m₃, (map ⟨0⟩ vpn ppn n flags).run m'' = .ok (.ok ()) m₃ →
          ∃ added, m₃.LiveSpace .sv39 ⟨0⟩ ⟨0⟩ [] root (nodes ++ added) ∧
            ∀ T ∈ added, ∀ P ∈ root :: nodes, ∀ i : UInt64,
              i.toNat < 2 ^ Mode.sv39.indexWidth P.level →
              P.level.toNat = T.level.toNat + 1 → Mode.sv39.childBlock P i.toNat = T.block →
              (Mode.sv39.entryAt m''.memory P.box.ppn i).valid = false := by
  have h₀ : (newSpace .sv39 ⟨0⟩).run
      { allocators := #[⟨FrameAllocator.new 0x80000 0x80100, #[]⟩] } = .ok (.ok ⟨0⟩) _ := rfl
  obtain ⟨root₀, hf⟩ := FreshSpace.new Mode.sound_sv39 (a := ⟨0⟩)
    (m := { allocators := #[⟨FrameAllocator.new 0x80000 0x80100, #[]⟩] }) (by decide)
    (Accounts.new _ _) (by decide) h₀
  obtain ⟨m'', -, hrun, -⟩ := hf.map_sv39_ok (by decide : Flags.rwx.hasAny .rwx = true)
    (by rfl : Mode.sv39.checkRange 0x100 0x80100 0x200 = .ok ()) (by decide +kernel)
  have hmapped : Mapped .sv39 ⟨0⟩ ⟨0⟩ [] m'' [⟨0x100, 0x80100, 0x200, Flags.rwx, .ok ()⟩] :=
    .map _ (.new (by decide) (by exact Accounts.new _ _) (by decide) h₀) hrun
  have hok : ∀ q ∈ [(⟨0x100, 0x80100, 0x200, Flags.rwx, .ok ()⟩ : MapRequest)], q.res = .ok () := by
    simp
  obtain ⟨root, nodes, hl, hnd, hblocks, hkeys, hframes, hperm, hnext⟩ :=
    tables_follow_mapped_blocks Mode.sound_sv39 hmapped hok
  -- the pages fall in two blocks of level 0 under one block of level 1
  have hfour : (m''.spaceAt ⟨0⟩).ownedFrames = 4 := by
    apply UInt64.toNat_inj.1
    rw [hframes]
    decide +kernel
  exact ⟨_, m'', h₀, hrun, hok, hfour, root, nodes, hl, hnd, hblocks, hkeys, hframes, hperm, hnext⟩

end Machine

end Paging
