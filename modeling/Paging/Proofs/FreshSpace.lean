import Paging.Proofs.SpaceOwnership
import Paging.Proofs.Untouched
/-!
# Mapping into a new space

A lookup reads a page's index at each level from the page-number bits below the mode's limit, so
two pages that agree on those bits look up alike (`LiveSpace.findEntry_mod`).

A space as `newSpace` makes it has its root alone, with every entry invalid (`FreshSpace.new`).
No page has a leaf there, so a mapping on it can never meet a mapping in its way:

* it never halts; it returns the refusal of its range, the allocator's refusal of a table, or
  success, and in each case the space stays live and what `Untouched` names is left alone;
* when it succeeds, the space maps exactly the pages of the request (`MapsExactly`): a lookup of
  such a page finds the leaf that the request writes for its block, and a lookup of any other
  page below the mode's limit meets an invalid entry (`FreshSpace.map_spec`).
-/

namespace Paging

open FrameAllocator Run

namespace Mode

variable {M : Mode} {mem : Memory} {a : AllocatorRef} {nodes : List TableNode}

theorem Sound.toNat_mod_vpnLimit (hM : M.Sound) (v : VirtPage) :
    (v % M.vpnLimit).toNat = v.toNat % 2 ^ M.tableShift M.topLevel := by
  rw [UInt64.toNat_mod, hM.toNat_vpnLimit]

/-- The index of a page at a level reads bits below the mode's limit only. -/
theorem Sound.slotIndex_mod (hM : M.Sound) (v : VirtPage) {L : Level}
    (hL : L.toNat ≤ M.topLevel.toNat) : M.slotIndex (v % M.vpnLimit) L = M.slotIndex v L := by
  have hle : M.levelShift L + M.indexWidth L ≤ M.tableShift M.topLevel := tableShift_le hL
  refine UInt64.toNat_inj.1 ?_
  rw [hM.toNat_slotIndex _ hL, hM.toNat_slotIndex _ hL, hM.toNat_mod_vpnLimit,
    ← Nat.mod_mul_right_div_self, ← Nat.mod_mul_right_div_self, ← Nat.pow_add,
    Nat.mod_mod_of_dvd _ (Nat.pow_dvd_pow 2 hle)]

theorem Sound.blockOf_mod (hM : M.Sound) (v : VirtPage) (L : Level) :
    M.blockOf (v % M.vpnLimit) L = M.blockOf v L := by
  rw [blockOf, blockOf, hM.toNat_mod_vpnLimit, Nat.mod_mod]

/-- Pages that agree below the mode's limit have the same leaves. -/
theorem Tree.leafAt_mod (hM : M.Sound) (h : M.Tree mem a nodes) (v : VirtPage) (e : Entry)
    (L : Level) : M.LeafAt mem nodes (v % M.vpnLimit) e L ↔ M.LeafAt mem nodes v e L := by
  constructor
  · rintro ⟨T, hT, rfl, hTb, he, hev, hel⟩
    rw [hM.blockOf_mod] at hTb
    rw [hM.slotIndex_mod v (h.shaped T hT).1] at he
    exact ⟨T, hT, rfl, hTb, he, hev, hel⟩
  · rintro ⟨T, hT, rfl, hTb, he, hev, hel⟩
    refine ⟨T, hT, rfl, by rw [hM.blockOf_mod]; exact hTb, ?_, hev, hel⟩
    rw [hM.slotIndex_mod v (h.shaped T hT).1]
    exact he

/-- Pages that agree below the mode's limit look up alike. -/
theorem Tree.lookup_mod (hM : M.Sound) {root : TableNode} (h : M.Tree mem a (root :: nodes))
    (hroot : root.level = M.topLevel) (hblock : root.block = 0) (v : VirtPage) :
    M.lookup mem root.box.ppn (v % M.vpnLimit) = M.lookup mem root.box.ppn v := by
  have hiff := fun e L => (h.lookup_eq_ok_iff hM hroot hblock (v % M.vpnLimit) e L).trans
    ((h.leafAt_mod hM v e L).trans (h.lookup_eq_ok_iff hM hroot hblock v e L).symm)
  cases hv : M.lookup mem root.box.ppn v with
  | ok p => exact (hiff p.1 p.2).2 hv
  | error f =>
    -- neither page has a leaf
    rw [h.lookup_eq_error hM hroot hblock v hv]
    refine h.lookup_eq_invalid hM hroot hblock fun e L hleaf => ?_
    rw [(hiff e L).1 ((h.lookup_eq_ok_iff hM hroot hblock _ e L).2 hleaf)] at hv
    cases hv

end Mode

namespace Machine

variable {M : Mode} {a : AllocatorRef} {r : SpaceRef} {held : List PhysPage} {m : Machine}

/-- Pages that agree below the mode's limit look up alike in a live space. -/
theorem LiveSpace.findEntry_mod (hM : M.Sound) {root : TableNode} {nodes : List TableNode}
    (h : m.LiveSpace M a r held root nodes) (v : VirtPage) :
    (findEntry r (v % M.vpnLimit)).run m = (findEntry r v).run m := by
  rw [h.findEntry_run hM, h.findEntry_run hM, h.tree.lookup_mod hM h.root_level h.root_block]

/-! ## Fresh spaces -/

/-- The space `r` is as `newSpace` makes it: live with its root alone, whose entries are all
invalid. -/
structure FreshSpace (M : Mode) (a : AllocatorRef) (r : SpaceRef) (held : List PhysPage)
    (m : Machine) (root : TableNode) : Prop where
  live : m.LiveSpace M a r held root []
  empty : ∀ i : UInt64, i.toNat < 2 ^ M.indexWidth root.level →
    (M.entryAt m.memory root.box.ppn i).valid = false

/-- A space that `newSpace` makes over an allocator whose accounts hold is fresh. -/
theorem FreshSpace.new (hM : M.Sound) {m' : Machine} (hlt : a.index < m.allocators.size)
    (hacc : Accounts (m.cellAt a).frames held) (hstop : (m.cellAt a).frames.stop.toNat ≤ 2 ^ 44)
    (h : (newSpace M a).run m = .ok (.ok r) m') : ∃ root, m'.FreshSpace M a r held root := by
  obtain ⟨root, hl⟩ := LiveSpace.new hM hlt hacc hstop h
  refine ⟨root, hl, fun i hi => ?_⟩
  obtain ⟨tf, htf, -⟩ := hM.tableFrames_eq (L := M.topLevel) (Nat.le_refl _)
  cases ha : (m.cellAt a).frames.allocFrames tf tf with
  | error f =>
    obtain ⟨m'', h'⟩ := newSpace_run_error htf ha
    rw [h'] at h
    cases h
  | ok p =>
    obtain ⟨ppn, fr⟩ := p
    rw [newSpace_run_ok hM htf ha] at h
    injection h with h1 h2
    cases h1
    -- the root is the box just cleared
    have hbox : root.box.ppn = ppn := by
      have hr := hl.root_box
      rw [← h2] at hr
      simp only [spaceAt, withCell, withMemory, Array.set!_eq_setIfInBounds,
        Array.getElem?_push_size, Option.getD_some, Option.some.injEq] at hr
      rw [← hr]
    have hmem : m'.memory =
        m.memory.fill (M.physAddrOf ppn) (2 ^ M.indexWidth M.topLevel * 8) 0 := by
      rw [← h2]
      rfl
    have hroot := hl.tree.shaped root (List.mem_cons_self ..)
    have hfill := hM.entryAt_fill_self m.memory hroot hi
    rw [hl.root_level, hbox] at hfill
    rw [hmem, hbox, hfill]
    rfl

/-- A frame handed out to another client of the allocator keeps the space fresh. -/
theorem FreshSpace.allocFrame {root : TableNode} (hf : m.FreshSpace M a r held root)
    {p : PhysPage} {m' : Machine} (hrun : (allocFrame a).run m = .ok (.ok p) m') :
    m'.FreshSpace M a r (held ++ [p]) root := by
  have hmem : m'.memory = m.memory := by
    cases hc : (m.cellAt a).frames.allocFrame with
    | error f =>
      rw [allocFrame_run_error hc] at hrun
      cases hrun
    | ok q =>
      rw [allocFrame_run_ok hc] at hrun
      injection hrun with hres hm
      rw [← hm, memory_withCell]
  refine ⟨hf.live.allocFrame hrun, fun i hi => ?_⟩
  rw [hmem]
  exact hf.empty i hi

namespace FreshSpace

variable {root : TableNode} (hM : M.Sound) (hf : m.FreshSpace M a r held root)
include hM hf

/-- No page has a leaf in a fresh space. -/
theorem not_leafAt (w : VirtPage) (e : Entry) (L : Level) :
    ¬ M.LeafAt m.memory [root] w e L := by
  rintro ⟨T, hT, rfl, -, he, hev, -⟩
  obtain rfl := List.mem_singleton.1 hT
  rw [← he, hf.empty _ (hM.slotIndex_lt w (hf.live.tree.shaped T (List.mem_singleton_self _)).1)]
    at hev
  cases hev

omit hM in
/-- Every pointer of a fresh space leads to a leaf, there being no pointer. -/
theorem populated : M.Populated m.memory [root] := by
  intro T hT i hi hv
  obtain rfl := List.mem_singleton.1 hT
  rw [hf.empty i hi] at hv
  cases hv

end FreshSpace

/-! ## What a mapping on a fresh space does -/

/-- The space `r` maps exactly the pages `[vpn, vpn + n)` among those below the mode's limit: a
lookup of such a page finds, at some level `L`, the leaf that maps the page's block at `L` onto
the frames as far from `ppn` as the block lies from `vpn`, with the flags; a lookup of any other
page meets an invalid entry. -/
def MapsExactly (M : Mode) (m : Machine) (r : SpaceRef) (vpn : VirtPage) (ppn : PhysPage)
    (n : UInt64) (flags : Flags) : Prop :=
  ∀ v : VirtPage, v < M.vpnLimit →
    (vpn.toNat ≤ v.toNat ∧ v.toNat < vpn.toNat + n.toNat →
      ∃ L, L.toNat ≤ M.topLevel.toNat ∧ (findEntry r v).run m = .ok (.ok (Entry.mapping
        (ppn + (Word.alignDown v (Word.pow2 (M.levelShift L)) - vpn)) flags, L)) m) ∧
    (¬ (vpn.toNat ≤ v.toNat ∧ v.toNat < vpn.toNat + n.toNat) →
      (findEntry r v).run m = .ok (.error .invalidEntry) m)

/-- Lookups read the memory and the space only. -/
theorem MapsExactly.congr (hM : M.Sound) {vpn : VirtPage} {ppn : PhysPage} {n : UInt64}
    {flags : Flags} (h : MapsExactly M m r vpn ppn n flags) {root : TableNode}
    {nodes : List TableNode} (hl : m.LiveSpace M a r held root nodes) {m' : Machine}
    (hl' : m'.LiveSpace M a r held root nodes) (hmem : m'.memory = m.memory) :
    MapsExactly M m' r vpn ppn n flags := by
  intro v hv
  have hrun : (findEntry r v).run m' = .ok (M.lookup m.memory root.box.ppn v) m' := by
    rw [hl'.findEntry_run hM, hmem]
  rw [hrun]
  obtain ⟨hin, hout⟩ := h v hv
  rw [hl.findEntry_run hM] at hin hout
  refine ⟨fun hv' => ?_, fun hv' => ?_⟩
  · obtain ⟨L, hL, hlk⟩ := hin hv'
    injection hlk with hlk
    exact ⟨L, hL, by rw [hlk]⟩
  · injection hout hv' with hlk
    rw [hlk]

/-- A call that started on an empty root and has done every page of its request maps exactly
those pages. -/
theorem Doing.mapsExactly (hM : M.Sound) {c : M.MapCall a} (hnodes : c.nodes = [])
    (hempty : ∀ i : UInt64, i.toNat < 2 ^ M.indexWidth c.root.level →
      (M.entryAt c.mem c.root.box.ppn i).valid = false)
    (hd : Doing M a r held c (fun w => ∃ s ∈ c.segs, s.Holds w.toNat) m) :
    MapsExactly M m r c.vpn c.ppn c.n c.flags := by
  obtain ⟨nodes, ⟨hl, -⟩, hp⟩ := hd
  have hlookup := hl.tree.lookup_eq_ok_iff hM hl.root_level hl.root_block
  intro v hv
  have hv' : v.toNat < 2 ^ M.tableShift M.topLevel := by
    rwa [UInt64.lt_iff_toNat_lt, hM.toNat_vpnLimit] at hv
  rw [hl.findEntry_run hM v]
  constructor
  · intro hin
    obtain ⟨s, hs, hsv⟩ := (c.plan.holds v.toNat).2 hin
    refine ⟨s.level, c.plan.level_le s hs, ?_⟩
    rw [(hlookup v _ _).2 (hp.leaf v ⟨s, hs, hsv⟩ s hs hsv)]
    rfl
  · intro hout
    cases hlk : M.lookup m.memory c.root.box.ppn v with
    | ok p =>
      -- the leaf found was not there before the call, so the call wrote it for `v`
      rcases hp.leafAt_cases hM hl.tree hv' ((hlookup v p.1 p.2).1 hlk) with hold | ⟨s, hs, hsv⟩
      · obtain ⟨T, hT, hTL, -, he, hev, -⟩ := hold
        rw [hnodes, List.mem_singleton] at hT
        subst hT
        have hi := hM.slotIndex_lt v (hl.tree.shaped _ (List.mem_cons_self ..)).1
        rw [← he, ← hTL, hempty _ hi] at hev
        cases hev
      · exact absurd ((c.plan.holds v.toNat).1 ⟨s, hs, hsv⟩) hout
    | error f =>
      rw [hl.tree.lookup_eq_error hM hl.root_level hl.root_block v hlk]

/-- A request with read, write or execute permission whose range `checkRange` accepts never halts
on a fresh space. It returns as `map_run_progress` says, and leaves alone what `Untouched` names. -/
theorem FreshSpace.map_returns (hM : M.Sound) {root : TableNode} (hf : m.FreshSpace M a r held root)
    {vpn : VirtPage} {ppn : PhysPage} {n : UInt64} {flags : Flags}
    (hflags : flags.hasAny .rwx = true) (hc : M.checkRange vpn ppn n = .ok ())
    {segs : List Segment} (hs : M.segments vpn ppn n = .ok segs) (hplan : M.Plan vpn ppn n segs) :
    let c := MapCall.ofAccepted hM hf.live vpn ppn n flags hc hplan
    ∃ res m', (map r vpn ppn n flags).run m = .ok res m' ∧ Untouched m m' ∧
      (∃ nodes', Mapping M a r held c.root c.mem c.nodes m' nodes') ∧
      (res = .ok () → Doing M a r held c (fun w => ∃ s ∈ c.segs, s.Holds w.toNat) m') ∧
      ∀ f, res = .error f → f.component = .frames ∧
        Refused M a r held c (fun w => ∃ s ∈ c.segs, s.Holds w.toNat) f m' := by
  intro c
  have hspec := map_run_progress hM hf.live hflags hc hs hplan
  have hkeep := Untouched.keeps_map r vpn ppn n flags m (Untouched.refl m)
  cases hrun : (map r vpn ppn n flags).run m with
  | error e m' =>
    -- a halt needs a leaf in the way, and a fresh space has none
    rw [hrun] at hspec
    obtain ⟨w, -, e, L, hleaf⟩ := hspec.2 hf.populated
    exact absurd hleaf (hf.not_leafAt hM w e L)
  | ok res m' =>
    rw [hrun] at hspec hkeep
    exact ⟨res, m', rfl, hkeep, hspec⟩

/-- A request with read, write or execute permission on a fresh space never halts. It returns
the refusal of its range, or once the range is accepted the allocator's refusal of a table, or
success; the space stays live and what `Untouched` names is left alone. On success the space
maps exactly the pages of the request. -/
theorem FreshSpace.map_spec (hM : M.Sound) {root : TableNode} (hf : m.FreshSpace M a r held root)
    (vpn : VirtPage) (ppn : PhysPage) (n : UInt64) {flags : Flags}
    (hflags : flags.hasAny .rwx = true) :
    ∃ res m', (map r vpn ppn n flags).run m = .ok res m' ∧
      (∃ nodes, m'.LiveSpace M a r held root nodes) ∧ Untouched m m' ∧
      (∀ f, res = .error f → M.checkRange vpn ppn n = .error f ∨
        (M.checkRange vpn ppn n = .ok () ∧ f.component = .frames)) ∧
      (res = .ok () → M.checkRange vpn ppn n = .ok () ∧ MapsExactly M m' r vpn ppn n flags) := by
  cases hc : M.checkRange vpn ppn n with
  | error f =>
    exact ⟨.error f, m, map_run_refused hf.live hflags hc, ⟨[], hf.live⟩, Untouched.refl m,
      fun g hg => .inl (by cases hg; rfl), fun h => by cases h⟩
  | ok u =>
    obtain ⟨segs, hs, hplan⟩ := hM.segments_plan hc
    obtain ⟨res, m', hrun, hkeep, ⟨nodes, hl, -⟩, hok, herr⟩ := hf.map_returns hM hflags hc hs hplan
    exact ⟨res, m', hrun, ⟨nodes, hl⟩, hkeep, fun f hf' => .inr ⟨rfl, (herr f hf').1⟩,
      fun h => ⟨rfl, Doing.mapsExactly hM rfl hf.empty (hok h)⟩⟩

end Machine

end Paging
