import Paging.Proofs.PageLookup
import Paging.Proofs.TableRuns
import Paging.Proofs.RequestChecks
/-!
# What a mapping does to the pages

A call of `Machine.map` on a live space, once its request is accepted, maps the segments of its
plan one after the other (`Mode.MapCall`). Along the way it keeps `MapCall.Progress`: the pages
it has done each have the leaf the call writes for them and had no leaf before the call, and
every valid entry of the tree was valid before the call, or is a leaf written for pages done, or
a pointer written on the way down to a page of a segment of a lower level. Each change the call
makes to the tables keeps it (`Progress.fill`, `Progress.link`, `Progress.writeLeaf`).

From it:

* a call that returns has done every page of its request, none of which had a leaf before
  (`map_progress`);
* a call that halts met a valid entry on the way or in place of a leaf. When every pointer of the
  tree led to a leaf before the call (`Mode.Populated`), some page of the request had a leaf
  before the call (`Progress.clash_of_leaf`, `Progress.clash_of_valid`);
* a call that returns keeps every pointer leading to a leaf (`Progress.populated`);
* whatever the call ends in, the space stays live and its tree grows (`map_spec`).
-/

namespace Paging

open FrameAllocator Run

namespace Mode

variable {M : Mode} {a : AllocatorRef}

/-- The page `w` is one that the mode translates, in the block that the entry `i` of `T`
covers. -/
def InSlot (M : Mode) (T : TableNode) (i : UInt64) (w : VirtPage) : Prop :=
  w.toNat < 2 ^ M.tableShift M.topLevel ∧ M.blockOf w T.level = T.block ∧
    M.slotIndex w T.level = i

/-- Every pointer of the tree leads to a leaf: some page of the block that a valid entry which
is not a leaf covers has a leaf. -/
def Populated (M : Mode) (mem : Memory) (nodes : List TableNode) : Prop :=
  ∀ T ∈ nodes, ∀ i : UInt64, i.toNat < 2 ^ M.indexWidth T.level →
    (M.entryAt mem T.box.ppn i).valid = true → (M.entryAt mem T.box.ppn i).isLeaf = false →
    ∃ w, M.InSlot T i w ∧ ∃ e L, M.LeafAt mem nodes w e L

/-- A call of `Machine.map` under way: the memory and the tree of the space before the call,
the root first, and the request with its plan. -/
structure MapCall (M : Mode) (a : AllocatorRef) where
  mem : Memory
  root : TableNode
  nodes : List TableNode
  vpn : VirtPage
  ppn : PhysPage
  n : UInt64
  flags : Flags
  segs : List Segment
  is_tree : M.Tree mem a (root :: nodes)
  fits : vpn.toNat + n.toNat ≤ 2 ^ M.tableShift M.topLevel
  plan : M.Plan vpn ppn n segs

namespace MapCall

variable (c : M.MapCall a)

/-- The leaf that the call writes for a page of a segment of level `L`: it maps the page's block
onto the frames as far from `ppn` as the block lies from `vpn`. -/
def leaf (L : Level) (w : VirtPage) : Entry :=
  Entry.mapping (c.ppn + (Word.alignDown w (Word.pow2 (M.levelShift L)) - c.vpn)) c.flags

/-- The segments of the call lie in the space. -/
theorem stop_le {s : Segment} (hs : s ∈ c.segs) : s.stop.toNat ≤ 2 ^ M.tableShift M.topLevel := by
  have hb := c.plan.blocked s hs
  have hlast := (c.plan.holds (s.stop.toNat - 1)).1 ⟨s, hs, by unfold Segment.Holds; have := hb.1; omega⟩
  have := c.fits
  omega

/-- Some page of the request had a leaf before the call. -/
def Clash : Prop :=
  ∃ w : VirtPage, (∃ s ∈ c.segs, s.Holds w.toNat) ∧ ∃ e L, M.LeafAt c.mem (c.root :: c.nodes) w e L

/-- The call has done the pages `done` in the memory `mem` with the tree `nodes`. -/
structure Progress (done : VirtPage → Prop) (mem : Memory) (nodes : List TableNode) : Prop where
  /-- The tree has grown out of the tree before the call. -/
  grows : M.Grows c.mem (c.root :: c.nodes) mem nodes
  /-- A page done has the leaf that the call writes for it. -/
  leaf : ∀ w, done w → ∀ s ∈ c.segs, s.Holds w.toNat →
    M.LeafAt mem nodes w (c.leaf s.level w) s.level
  /-- A page done had no leaf before the call. -/
  free : ∀ w, done w → ∀ e L, ¬ M.LeafAt c.mem (c.root :: c.nodes) w e L
  /-- A valid entry was valid before the call, or is a leaf written for pages done, or a pointer
  written on the way down to a page of a segment of a lower level. -/
  written : ∀ T ∈ nodes, ∀ i : UInt64, i.toNat < 2 ^ M.indexWidth T.level →
    (M.entryAt mem T.box.ppn i).valid = true →
    (T ∈ c.root :: c.nodes ∧ (M.entryAt c.mem T.box.ppn i).valid = true) ∨
    ((M.entryAt mem T.box.ppn i).isLeaf = true ∧ ∀ w, M.InSlot T i w → done w) ∨
    ((M.entryAt mem T.box.ppn i).isLeaf = false ∧
      ∃ w, M.InSlot T i w ∧ ∃ s ∈ c.segs, s.Holds w.toNat ∧ s.level.toNat < T.level.toNat)

namespace Progress

variable {c} {done : VirtPage → Prop} {mem : Memory} {nodes : List TableNode}

/-- Before the call, nothing is done. -/
theorem start : c.Progress (fun _ => False) c.mem (c.root :: c.nodes) where
  grows := Grows.refl M _ _
  leaf _ h := h.elim
  free _ h := h.elim
  written _ hT _ _ hv := .inl ⟨hT, hv⟩

theorem congr_done (h : c.Progress done mem nodes) {done' : VirtPage → Prop}
    (hd : ∀ w, done' w ↔ done w) : c.Progress done' mem nodes where
  grows := h.grows
  leaf w hw := h.leaf w ((hd w).1 hw)
  free w hw := h.free w ((hd w).1 hw)
  written T hT i hi hv := by
    rcases h.written T hT i hi hv with h1 | ⟨hl, hw⟩ | h3
    · exact .inl h1
    · exact .inr (.inl ⟨hl, fun w hs => (hd w).2 (hw w hs)⟩)
    · exact .inr (.inr h3)

/-- A leaf on the way down to a page of the request not yet done was there before the call. -/
theorem clash_of_leaf (h : c.Progress done mem nodes) {T : TableNode} (hT : T ∈ nodes)
    {q : VirtPage} (hq : q.toNat < 2 ^ M.tableShift M.topLevel)
    (hTb : T.block = M.blockOf q T.level) (hqs : ∃ s ∈ c.segs, s.Holds q.toNat) (hqd : ¬ done q)
    (hi : (M.slotIndex q T.level).toNat < 2 ^ M.indexWidth T.level)
    (hv : (M.entryAt mem T.box.ppn (M.slotIndex q T.level)).valid = true)
    (hl : (M.entryAt mem T.box.ppn (M.slotIndex q T.level)).isLeaf = true) : c.Clash := by
  rcases h.written T hT _ hi hv with ⟨hT₀, hv₀⟩ | ⟨-, hw⟩ | ⟨hl', -⟩
  · have he := h.grows.keeps_valid T hT₀ _ hi hv₀
    rw [he] at hl
    exact ⟨q, hqs, _, _, T, hT₀, rfl, hTb, rfl, hv₀, hl⟩
  · exact absurd (hw q ⟨hq, hTb.symm, rfl⟩) hqd
  · rw [hl] at hl'
    cases hl'

/-- A valid entry in place of the leaf of a block of a segment, one page of which is not yet
done, was valid before the call; when every pointer led to a leaf then, some page of the block
had a leaf. -/
theorem clash_of_valid (h : c.Progress done mem nodes)
    (hpop : M.Populated c.mem (c.root :: c.nodes)) {U : TableNode} (hU : U ∈ nodes) {i : UInt64}
    (hi : i.toNat < 2 ^ M.indexWidth U.level) (hv : (M.entryAt mem U.box.ppn i).valid = true)
    {s : Segment} (hs : s ∈ c.segs) (hlev : U.level = s.level)
    (hslot : ∀ w, M.InSlot U i w → s.Holds w.toNat) {q : VirtPage} (hq : M.InSlot U i q)
    (hqd : ¬ done q) : c.Clash := by
  rcases h.written U hU i hi hv with ⟨hU₀, hv₀⟩ | ⟨-, hw⟩ | ⟨-, w, hw, s', hs', hws', hlt⟩
  · cases hleaf : (M.entryAt c.mem U.box.ppn i).isLeaf
    · -- a pointer before the call led to a leaf of a page of the block
      obtain ⟨w, hw, e, L, hwl⟩ := hpop U hU₀ i hi hv₀ hleaf
      exact ⟨w, ⟨s, hs, hslot w hw⟩, e, L, hwl⟩
    · have hqs := hslot q hq
      obtain ⟨-, hqb, rfl⟩ := hq
      exact ⟨q, ⟨s, hs, hqs⟩, _, _, U, hU₀, rfl, hqb.symm, rfl, hv₀, hleaf⟩
  · exact absurd (hw q hq) hqd
  · -- a pointer written on the way down to a lower segment would lie in this segment
    obtain rfl := Segment.eq_of_holds c.plan.apart hs hs' (hslot w hw) hws'
    rw [hlev] at hlt
    exact absurd hlt (lt_irrefl _)

/-- Once every page of the request is done, every pointer leads to a leaf if it did before the
call. -/
theorem populated (hM : M.Sound) (h : c.Progress done mem nodes)
    (hpop : M.Populated c.mem (c.root :: c.nodes))
    (hall : ∀ w : VirtPage, (∃ s ∈ c.segs, s.Holds w.toNat) → done w) : M.Populated mem nodes := by
  intro T hT i hi hv hl
  rcases h.written T hT i hi hv with ⟨hT₀, hv₀⟩ | ⟨hl', -⟩ | ⟨-, w, hw, s, hs, hws, -⟩
  · rw [h.grows.keeps_valid T hT₀ i hi hv₀] at hl
    obtain ⟨w, hw, e, L, hwl⟩ := hpop T hT₀ i hi hv₀ hl
    exact ⟨w, hw, e, L, c.is_tree.leafAt_of_grows hM h.grows hwl⟩
  · rw [hl] at hl'
    cases hl'
  · exact ⟨w, hw, _, _, h.leaf w (hall w ⟨s, hs, hws⟩) s hs hws⟩

variable (hM : M.Sound) (h : c.Progress done mem nodes) (ht : M.Tree mem a nodes)
include hM h ht

/-- A page below the limit of the mode with a leaf during the call had that leaf before the call,
or is done. -/
theorem leafAt_cases {w : VirtPage} (hw : w.toNat < 2 ^ M.tableShift M.topLevel) {e : Entry}
    {L : Level} (hleaf : M.LeafAt mem nodes w e L) :
    M.LeafAt c.mem (c.root :: c.nodes) w e L ∨ done w := by
  obtain ⟨T, hT, rfl, hTb, he, hev, hel⟩ := hleaf
  have hi := hM.slotIndex_lt w (ht.shaped T hT).1
  have hv : (M.entryAt mem T.box.ppn (M.slotIndex w T.level)).valid = true := he ▸ hev
  rcases h.written T hT _ hi hv with ⟨hT₀, hv₀⟩ | ⟨-, hdone⟩ | ⟨hnl, -⟩
  · -- an entry valid before the call is the same entry
    refine .inl ⟨T, hT₀, rfl, hTb, ?_, hev, hel⟩
    rw [← h.grows.keeps_valid T hT₀ _ hi hv₀, he]
  · exact .inr (hdone w ⟨hw, hTb.symm, rfl⟩)
  · rw [he, hel] at hnl
    cases hnl

/-- Clearing a table held apart from the tree keeps the progress. -/
theorem fill {mem' : Memory} (he : ∀ T ∈ nodes, ∀ i : UInt64, i.toNat < 2 ^ M.indexWidth T.level →
    M.entryAt mem' T.box.ppn i = M.entryAt mem T.box.ppn i) : c.Progress done mem' nodes where
  grows := h.grows.of_entryAt_eq he
  leaf w hw s hs hsw := (ht.leafAt_congr hM he w _ _).2 (h.leaf w hw s hs hsw)
  free := h.free
  written T hT i hi hv := by
    rw [he T hT i hi] at hv ⊢
    exact h.written T hT i hi hv

/-- Linking a new table below the entry of a node on the way down to a page of a segment of a
lower level keeps the progress. -/
theorem link {T : TableNode} (hT : T ∈ nodes) {q : VirtPage}
    (hq : q.toNat < 2 ^ M.tableShift M.topLevel) (hTb : T.block = M.blockOf q T.level)
    {s : Segment} (hs : s ∈ c.segs) (hqs : s.Holds q.toNat) (hlt : s.level.toNat < T.level.toNat)
    (hinv : (M.entryAt mem T.box.ppn (M.slotIndex q T.level)).valid = false) {U : TableNode}
    (hU : M.Shaped a U) (hapart : ∀ V ∈ nodes, U.box.Apart V.box)
    (hempty : ∀ j : UInt64, j.toNat < 2 ^ M.indexWidth U.level →
      (M.entryAt mem U.box.ppn j).valid = false) :
    c.Progress done (mem.writeWord (Machine.slotAddr M T.box.ppn (M.slotIndex q T.level))
      (Entry.child U.box.ppn).raw) (nodes ++ [U]) := by
  have hi := hM.slotIndex_lt q (ht.shaped T hT).1
  refine ⟨(h.grows.writeWord hM ht hT hi hinv _).append U, fun w hw s hs hsw =>
    (ht.leafAt_link hM hT hi hinv hU hapart hempty w _ _).2 (h.leaf w hw s hs hsw), h.free, ?_⟩
  intro V hV j hj hv
  rcases List.mem_append.1 hV with hV | hV
  · rw [ht.entryAt_writeWord hM hT hV hi hj] at hv ⊢
    by_cases hTV : T = V ∧ M.slotIndex q T.level = j
    · -- the written pointer, on the way down to `q`
      obtain ⟨rfl, rfl⟩ := hTV
      rw [if_pos ⟨rfl, rfl⟩]
      exact .inr (.inr ⟨Entry.isLeaf_child _, q, ⟨hq, hTb.symm, rfl⟩, s, hs, hqs, hlt⟩)
    · rw [if_neg hTV] at hv ⊢
      exact h.written V hV j hj hv
  · -- the new table holds no valid entry
    rw [List.mem_singleton.1 hV] at hj hv
    rw [hM.entryAt_writeWord_apart mem (ht.shaped T hT) hU (hapart T hT).symm hi hj,
      hempty j hj] at hv
    cases hv

/-- Writing the leaf of the pages of an invalid entry, which lie in segments of the entry's
level, adds them to the pages done. -/
theorem writeLeaf {U : TableNode} (hU : U ∈ nodes) {i : UInt64}
    (hi : i.toNat < 2 ^ M.indexWidth U.level) (hinv : (M.entryAt mem U.box.ppn i).valid = false)
    {e : Entry} (hev : e.valid = true) (hel : e.isLeaf = true)
    (hslot : ∀ w, M.InSlot U i w → ∀ s ∈ c.segs, s.Holds w.toNat →
      U.level = s.level ∧ e = c.leaf s.level w) :
    c.Progress (fun w => done w ∨ M.InSlot U i w)
      (mem.writeWord (Machine.slotAddr M U.box.ppn i) e.raw) nodes := by
  refine ⟨h.grows.writeWord hM ht hU hi hinv _, ?leaf, ?free, ?written⟩
  case leaf =>
    rintro w (hw | hw) s hs hsw
    · exact (ht.leafAt_leaf hM hU hi hinv hev hel w _ _).2 (.inl (h.leaf w hw s hs hsw))
    · obtain ⟨hlev, he⟩ := hslot w hw s hs hsw
      exact (ht.leafAt_leaf hM hU hi hinv hev hel w _ _).2
        (.inr ⟨hw.2.1.symm, hw.2.2, he.symm, hlev.symm⟩)
  case free =>
    rintro w (hw | ⟨-, hwb, hwi⟩) e L hleaf
    · exact h.free w hw e L hleaf
    · -- a leaf from before the call would still be there, but the entry of `w` is invalid
      subst hwi
      exact ht.not_leafAt_of_invalid hM hU hwb.symm hinv e L
        (c.is_tree.leafAt_of_grows hM h.grows hleaf)
  case written =>
    intro V hV j hj hv
    rw [ht.entryAt_writeWord hM hU hV hi hj] at hv ⊢
    by_cases hUV : U = V ∧ i = j
    · obtain ⟨rfl, rfl⟩ := hUV
      rw [if_pos ⟨rfl, rfl⟩]
      exact .inr (.inl ⟨hel, fun w hw => .inr hw⟩)
    · rw [if_neg hUV] at hv ⊢
      rcases h.written V hV j hj hv with h1 | ⟨hl, hw⟩ | h3
      · exact .inl h1
      · exact .inr (.inl ⟨hl, fun w hs => .inl (hw w hs)⟩)
      · exact .inr (.inr h3)

end Progress

end MapCall

/-- The walk down to a page of a segment, not yet done, keeps the progress; a leaf on the way
was there before the call. -/
theorem MapCall.walkInv (hM : M.Sound) (c : M.MapCall a) {done : VirtPage → Prop} {q : VirtPage}
    {s : Segment} (hs : s ∈ c.segs) (hqs : s.Holds q.toNat)
    (hq : q.toNat < 2 ^ M.tableShift M.topLevel) (hqd : ¬ done q) :
    M.WalkInv a q s.level.toNat (fun mem nodes => c.Progress done mem nodes)
      (M.Populated c.mem (c.root :: c.nodes) → c.Clash) where
  fill _ _ _ ht he hp := hp.fill hM ht he
  link _ _ _ _ hp ht hT hTb htgt hinv hU _ _ hapart hempty :=
    hp.link hM ht hT hq hTb hs hqs htgt hinv hU hapart hempty
  stop _ _ T hp ht hT hTb _ hv hl _ :=
    hp.clash_of_leaf hT hq hTb ⟨s, hs, hqs⟩ hqd (hM.slotIndex_lt q (ht.shaped T hT).1) hv hl

/-- The pages in the block of the entry at the `k`-th index of a run, in the node of the run's
table, are those of the run's `k`-th block. -/
theorem Piece.inSlot_iff (hM : M.Sound) {L : Level} {start stop : VirtPage}
    (hp : M.Piece L start stop) {U : TableNode} (hUL : U.level = L)
    (hUb : U.block = M.blockOf start L) {k : Nat}
    (hk : (M.slotIndex start L).toNat + k < 2 ^ M.indexWidth L)
    (hidx : (M.slotIndex start L + k.toUInt64).toNat = (M.slotIndex start L).toNat + k)
    (hkc : (k + 1) * 2 ^ M.levelShift L ≤ stop.toNat - start.toNat) (w : VirtPage) :
    M.InSlot U (M.slotIndex start L + k.toUInt64) w ↔
      start.toNat + k * 2 ^ M.levelShift L ≤ w.toNat ∧
        w.toNat < start.toNat + (k + 1) * 2 ^ M.levelShift L := by
  have hstop := hp.stop_le
  have hlt := hp.lt
  constructor
  · rintro ⟨hw, hwb, hwi⟩
    rw [hUL, hUb] at hwb
    rw [hUL] at hwi
    exact (hp.block_slot_iff hM hk hidx hw).1 ⟨hwb, hwi⟩
  · intro hw
    have hw' : w.toNat < 2 ^ M.tableShift M.topLevel := by omega
    obtain ⟨hwb, hwi⟩ := (hp.block_slot_iff hM hk hidx hw').2 hw
    exact ⟨hw', by rw [hUL, hUb, hwb], by rw [hUL, hwi]⟩

end Mode

namespace Machine

variable {M : Mode} {a : AllocatorRef} {r : SpaceRef} {held : List PhysPage}

/-- The call `c` is under way on the space, with the pages `done` done. -/
def Doing (M : Mode) (a : AllocatorRef) (r : SpaceRef) (held : List PhysPage) (c : M.MapCall a)
    (done : VirtPage → Prop) (m : Machine) : Prop :=
  ∃ nodes, Mapping M a r held c.root c.mem c.nodes m nodes ∧
    c.Progress done m.memory (c.root :: nodes)

theorem Doing.congr_done {c : M.MapCall a} {done done' : VirtPage → Prop} {m : Machine}
    (h : Doing M a r held c done m) (hd : ∀ w, done' w ↔ done w) : Doing M a r held c done' m :=
  h.imp fun _ h => ⟨h.1, h.2.congr_done hd⟩

/-- The call `c` stopped at the allocator's refusal `f` of a table, with some of the pages `upto`
done: the walk down to a page of one of its segments met an invalid entry above the segment's
level, where the table refused would go. -/
def Refused (M : Mode) (a : AllocatorRef) (r : SpaceRef) (held : List PhysPage)
    (c : M.MapCall a) (upto : VirtPage → Prop) (f : Fault) (m : Machine) : Prop :=
  ∃ done, (∀ w, done w → upto w) ∧ ∃ nodes, Mapping M a r held c.root c.mem c.nodes m nodes ∧
    c.Progress done m.memory (c.root :: nodes) ∧ ∃ q : VirtPage, ∃ s ∈ c.segs,
      s.Holds q.toNat ∧ WalkRefused M a m (c.root :: nodes) q s.level.toNat f

theorem Refused.mono {c : M.MapCall a} {upto upto' : VirtPage → Prop} {f : Fault} {m : Machine}
    (h : Refused M a r held c upto f m) (hu : ∀ w, upto w → upto' w) :
    Refused M a r held c upto' f m :=
  h.imp fun _ h => ⟨fun w hw => hu w (h.1 w hw), h.2⟩

/-- The call `c` halted: the space is live with a tree grown out of the tree before the call, and
some page of the request had a leaf before the call, when every pointer led to a leaf then. -/
def Halted (M : Mode) (a : AllocatorRef) (r : SpaceRef) (held : List PhysPage) (c : M.MapCall a)
    (m : Machine) : Prop :=
  (∃ nodes, Mapping M a r held c.root c.mem c.nodes m nodes) ∧
    (M.Populated c.mem (c.root :: c.nodes) → c.Clash)

/-- A run of leaves for the pages `[start, stop)` of a segment, none of them done, returns with
them done, or with the allocator's refusal of a table and some of them done; or it halts at a
valid entry in the way. -/
theorem mapRun_progress (hM : M.Sound) (c : M.MapCall a) {done : VirtPage → Prop}
    {s : Segment} (hs : s ∈ c.segs) {start stop : VirtPage} (hp : M.Piece s.level start stop)
    (hin : s.start.toNat ≤ start.toNat ∧ stop.toNat ≤ s.stop.toNat)
    (hfree : ∀ w : VirtPage, start.toNat ≤ w.toNat → w.toNat < stop.toNat → ¬ done w)
    (hflags : c.flags.hasAny .rwx = true) : Run.Spec
    (Doing M a r held c done)
    (mapRun r s.level start stop c.vpn c.ppn c.flags)
    (fun res m => (∃ nodes, Mapping M a r held c.root c.mem c.nodes m nodes) ∧
      (res = .ok () → Doing M a r held c
        (fun w => done w ∨ (start.toNat ≤ w.toNat ∧ w.toNat < stop.toNat)) m) ∧
      ∀ f, res = .error f → f.component = .frames ∧ Refused M a r held c
        (fun w => done w ∨ (start.toNat ≤ w.toNat ∧ w.toNat < stop.toNat)) f m)
    (Halted M a r held c) := by
  intro m hm
  have hlt := hp.lt
  have hstop := hp.stop_le
  have hpos : 0 < 2 ^ M.levelShift s.level := by positivity
  have hstart : s.Holds start.toNat := ⟨hin.1, by omega⟩
  rw [mapRun]
  refine ends_bind ((tableFor_spec hM hp.level_le start
    (c.walkInv hM hs hstart (by omega) (hfree start le_rfl hlt)) m hm).mono (fun _ _ h => h)
    fun _ ⟨⟨nodes, hmap, _⟩, hx⟩ => ⟨⟨nodes, hmap⟩, hx⟩) ?_
  rintro res m' ⟨nodes', hm', hprog', hres, herr⟩
  cases res with
  | error f => exact ⟨⟨nodes', hm'⟩, fun h => (by cases h),
      fun g hg => (by
        cases hg
        exact ⟨(herr f rfl).1, done, fun _ hw => .inl hw, nodes', hm', hprog', start, s, hs,
          hstart, (herr f rfl).2⟩)⟩
  | ok t =>
    obtain ⟨U, hU, rfl, hUL, hUb⟩ := hres t rfl
    obtain ⟨last, hr, hfl, -, hcount⟩ := hp.indexRange_eq hM
    have hcm := hp.count_mul
    dsimp only
    rw [bind_run_ok (space_run m' r), hm'.1.mode, hr, ofHalting_ok, pure_bind]
    dsimp only
    rw [if_pos hfl, hcount]
    -- the turns of the loop write the leaves of the blocks of the run in order
    refine ends_bind (Spec.forM (I := fun k m => ∃ nodes,
      Mapping M a r held c.root c.mem c.nodes m nodes ∧ U ∈ c.root :: nodes ∧
      c.Progress (fun w => done w ∨ (start.toNat ≤ w.toNat ∧
        w.toNat < start.toNat + k * 2 ^ M.levelShift s.level)) m.memory (c.root :: nodes))
      _ ?_ m' ⟨nodes', hm', hU, hprog'.congr_done fun w => ?_⟩) ?_
    · intro k hk m₁ ⟨nodes₁, hm₁, hU₁, hprog₁⟩
      rw [List.length_range] at hk
      rw [List.getElem_range]
      obtain ⟨hidx, hk', page, hpage, hpv⟩ := hp.withIndex_eq hM hk
      have hkc : (k + 1) * 2 ^ M.levelShift s.level ≤ stop.toNat - start.toNat :=
        hcm ▸ Nat.mul_le_mul_right _ hk
      have hsucc : (k + 1) * 2 ^ M.levelShift s.level =
          k * 2 ^ M.levelShift s.level + 2 ^ M.levelShift s.level := Nat.succ_mul _ _
      have hslot := hp.inSlot_iff hM hUL hUb hk' hidx hkc
      have hi : (M.slotIndex start s.level + k.toUInt64).toNat < 2 ^ M.indexWidth U.level := by
        rw [hidx, hUL]
        exact hk'
      rw [hpage, ofHalting_ok, pure_bind, bind_run_ok (readEntry_slot_run m₁ _ _)]
      by_cases hv : (M.entryAt m₁.memory U.box.ppn (M.slotIndex start s.level + k.toUInt64)).valid
      · -- a valid entry in the way halts the run
        rw [if_pos hv, bind_run_error (halt_run _ m₁)]
        refine ⟨⟨nodes₁, hm₁.1.log _, hm₁.2⟩, fun hpop => hprog₁.clash_of_valid hpop hU₁ hi hv hs hUL
          (fun w hw => ?_) ((hslot page).2 (by omega)) ?_⟩
        · have := (hslot w).1 hw
          exact ⟨by omega, by omega⟩
        · rintro (hd | ⟨-, hlt'⟩)
          · exact hfree page (by omega) (by omega) hd
          · omega
      · -- the leaf of the `k`-th block goes into the invalid entry
        rw [if_neg hv]
        have hinv := Bool.eq_false_iff.2 hv
        have hel : (Entry.mapping (c.ppn + (page - c.vpn)) c.flags).isLeaf = true := by
          rw [Entry.isLeaf_mapping, hflags]
        have hleaf := hm₁.1.leaf hM hU₁ hi hinv hel
        refine ⟨nodes₁, ⟨hleaf.1, hm₁.2.trans hleaf.2⟩, hU₁, ?_⟩
        refine (hprog₁.writeLeaf hM hm₁.1.tree hU₁ hi hinv (Entry.valid_mapping _ _) hel
          fun w hw s' hs' hws' => ?_).congr_done fun w => ?_
        · have hws := (hslot w).1 hw
          obtain rfl := Segment.eq_of_holds c.plan.apart hs' hs hws' ⟨by omega, by omega⟩
          exact ⟨hUL, by rw [Mode.MapCall.leaf, hp.alignDown_eq hM hws hpv]⟩
        · rw [hslot w, or_assoc]
          exact or_congr_right (by omega)
    · exact or_iff_left (by omega)
    · rintro _ m'' ⟨nodes'', hm'', -, hprog''⟩
      refine ⟨⟨nodes'', hm''⟩, fun _ => ⟨nodes'', hm'', hprog''.congr_done fun w => ?_⟩,
        fun f hf => (by cases hf)⟩
      rw [List.length_range]
      exact or_congr_right (by omega)

/-- The pieces of a segment from `start` on, the pages of the segment before `start` done and
none after, return with the whole segment done, or with the allocator's refusal of a table and
some of it done; or they halt at a valid entry in the way. -/
theorem mapPieces_progress (hM : M.Sound) (c : M.MapCall a) {done : VirtPage → Prop}
    {s : Segment} (hs : s ∈ c.segs) (hfree : ∀ w : VirtPage, s.Holds w.toNat → ¬ done w)
    (hflags : c.flags.hasAny .rwx = true) :
    ∀ (fuel : Nat) (start : VirtPage), s.start.toNat ≤ start.toNat →
      start.toNat ≤ s.stop.toNat → 2 ^ M.levelShift s.level ∣ start.toNat →
      s.stop.toNat - start.toNat ≤ fuel → Run.Spec
      (Doing M a r held c fun w => done w ∨ (s.start.toNat ≤ w.toNat ∧ w.toNat < start.toNat))
      (mapPieces r M s c.vpn c.ppn c.flags fuel start)
      (fun res m => (∃ nodes, Mapping M a r held c.root c.mem c.nodes m nodes) ∧
        (res = .ok () → Doing M a r held c (fun w => done w ∨ s.Holds w.toNat) m) ∧
        ∀ f, res = .error f → f.component = .frames ∧
          Refused M a r held c (fun w => done w ∨ s.Holds w.toNat) f m)
      (Halted M a r held c) := by
  have hb := c.plan.blocked s hs
  have hstop := c.stop_le hs
  -- at the end of the segment, the pages done are those of the whole segment
  have hend : ∀ (start : VirtPage), start.toNat = s.stop.toNat → ∀ m,
      Doing M a r held c (fun w => done w ∨ (s.start.toNat ≤ w.toNat ∧ w.toNat < start.toNat)) m →
      (∃ nodes, Mapping M a r held c.root c.mem c.nodes m nodes) ∧
      (Except.ok () = (.ok () : Except Fault Unit) →
        Doing M a r held c (fun w => done w ∨ s.Holds w.toNat) m) ∧
      ∀ f, (Except.ok () : Except Fault Unit) = .error f → f.component = .frames ∧
        Refused M a r held c (fun w => done w ∨ s.Holds w.toNat) f m :=
    fun start he m hm => ⟨hm.imp fun _ h => h.1,
      fun _ => hm.congr_done fun w => or_congr_right (by unfold Segment.Holds; omega),
      fun f hf => (by cases hf)⟩
  intro fuel
  induction fuel with
  | zero =>
    intro start _ h2 _ hfuel m hm
    exact hend start (by omega) m hm
  | succ fuel ih =>
    intro start h1 h2 hdvd hfuel m hm
    -- one piece, from `start` to `stop`, then the rest of the segment from `stop`
    have hpiece : ∀ (stop : VirtPage) (k : Except Fault Unit → Run (Except Fault Unit)),
        (∀ f, k (.error f) = pure (.error f)) →
        k (.ok ()) = mapPieces r M s c.vpn c.ppn c.flags fuel stop →
        M.Piece s.level start stop → stop.toNat ≤ s.stop.toNat →
        Ends (fun res m => (∃ nodes, Mapping M a r held c.root c.mem c.nodes m nodes) ∧
          (res = .ok () → Doing M a r held c (fun w => done w ∨ s.Holds w.toNat) m) ∧
          ∀ f, res = .error f → f.component = .frames ∧
            Refused M a r held c (fun w => done w ∨ s.Holds w.toNat) f m) (Halted M a r held c)
          ((mapRun r s.level start stop c.vpn c.ppn c.flags >>= k).run m) := by
      intro stop k hke hko hp hle
      have hlt := hp.lt
      refine ends_bind (mapRun_progress hM c hs hp ⟨h1, hle⟩ ?_ hflags m hm) ?_
      · rintro w hw1 hw2 (hd | ⟨-, hw⟩)
        · exact hfree w ⟨by omega, by omega⟩ hd
        · omega
      rintro res m₁ ⟨hmap₁, hok, herr⟩
      cases res with
      | error f =>
        rw [hke]
        refine ⟨hmap₁, fun h => (by cases h), fun g hg => ⟨(herr g hg).1, (herr g hg).2.mono ?_⟩⟩
        rintro w ((hd | hw) | hw)
        · exact .inl hd
        · exact .inr ⟨by omega, by omega⟩
        · exact .inr ⟨by omega, by omega⟩
      | ok u =>
        rw [hko]
        refine ih stop (by omega) hle hp.stop_dvd (by omega) m₁ ((hok rfl).congr_done fun w => ?_)
        rw [or_assoc]
        exact or_congr_right (by omega)
    rw [mapPieces]
    by_cases hlt : start < s.stop
    · have hlt' := UInt64.lt_iff_toNat_lt.1 hlt
      rw [if_pos hlt]
      dsimp only
      split
      · -- below the root, the piece ends at the next block of the level above at the latest
        rename_i hL
        have hL' := UInt8.lt_iff_toNat_lt.1 hL
        obtain ⟨next, hn, hnv⟩ := hM.nextPageByLevel_eq hL' start (by omega)
        rw [hn, ofHalting_ok, pure_bind, pure_bind]
        refine hpiece _ _ (fun _ => rfl) rfl (Mode.Piece.of_below_top s hb hL' hstop hdvd hlt' hnv) ?_
        split
        · rename_i hns
          exact (UInt64.lt_iff_toNat_lt.1 hns).le
        · exact le_rfl
      · -- the root is the only table of its level
        rename_i hL
        have htop : s.level = M.topLevel := by
          have := c.plan.level_le s hs
          rw [UInt8.lt_iff_toNat_lt] at hL
          exact UInt8.toNat_inj.1 (by omega)
        rw [pure_bind]
        exact hpiece _ _ (fun _ => rfl) rfl (Mode.Piece.of_top s hb htop hstop hdvd hlt') le_rfl
    · rw [if_neg hlt, UInt64.lt_iff_toNat_lt] at *
      exact hend start (by omega) m hm

/-- The segments of the plan from some point on, the pages of the segments before it done, return
with every page of the request done, or with the allocator's refusal of a table and some of them
done; or they halt at a valid entry in the way. -/
theorem mapSegments_progress (hM : M.Sound) (c : M.MapCall a)
    (hflags : c.flags.hasAny .rwx = true) :
    ∀ (rest pre : List Segment), c.segs = pre ++ rest → Run.Spec
      (Doing M a r held c fun w => ∃ s ∈ pre, s.Holds w.toNat)
      (mapSegments r M c.vpn c.ppn c.flags rest)
      (fun res m => (∃ nodes, Mapping M a r held c.root c.mem c.nodes m nodes) ∧
        (res = .ok () → Doing M a r held c (fun w => ∃ s ∈ c.segs, s.Holds w.toNat) m) ∧
        ∀ f, res = .error f → f.component = .frames ∧
          Refused M a r held c (fun w => ∃ s ∈ c.segs, s.Holds w.toNat) f m)
      (Halted M a r held c) := by
  intro rest
  induction rest with
  | nil =>
    intro pre hpre m hm
    rw [List.append_nil] at hpre
    exact ⟨hm.imp fun _ h => h.1, fun _ => hm.congr_done fun w => by rw [hpre],
      fun f hf => (by cases hf)⟩
  | cons s rest ih =>
    intro pre hpre m hm
    have hs : s ∈ c.segs := by
      rw [hpre]
      exact List.mem_append_right _ List.mem_cons_self
    have hb := c.plan.blocked s hs
    -- the pages of `s` are not done: it lies apart from every segment before it
    have hfree : ∀ w : VirtPage, s.Holds w.toNat → ¬ ∃ t ∈ pre, t.Holds w.toNat := by
      rintro w hsw ⟨t, ht, htw⟩
      have hap := c.plan.apart
      rw [hpre] at hap
      have := (List.pairwise_append.1 hap).2.2 t ht s List.mem_cons_self
      unfold Segment.Apart at this
      unfold Segment.Holds at hsw htw
      omega
    rw [mapSegments]
    refine ends_bind (mapPieces_progress hM c hs hfree hflags _ s.start le_rfl hb.1.le hb.2.1
      (by rw [UInt64.toNat_sub_of_le _ _ (UInt64.le_iff_toNat_le.2 hb.1.le)]) m
      (hm.congr_done fun w => or_iff_left (by omega))) ?_
    rintro res m₁ ⟨hmap₁, hok, herr⟩
    cases res with
    | error f =>
      refine ⟨hmap₁, fun h => (by cases h), fun g hg => ⟨(herr g hg).1, (herr g hg).2.mono ?_⟩⟩
      rintro w (⟨t, ht, htw⟩ | hw)
      · exact ⟨t, hpre ▸ List.mem_append_left _ ht, htw⟩
      · exact ⟨s, hs, hw⟩
    | ok u =>
      refine ih (pre ++ [s]) (by rw [hpre, List.append_assoc, List.singleton_append]) m₁
        ((hok rfl).congr_done fun w => ?_)
      simp only [List.mem_append, List.mem_singleton, or_and_right, exists_or, exists_eq_left]

/-- A request with read, write or execute permission whose range `checkRange` accepts maps the
segments of its plan. -/
theorem map_run_accepted {m : Machine} {root : TableNode} {nodes : List TableNode}
    (hl : m.LiveSpace M a r held root nodes) {vpn : VirtPage} {ppn : PhysPage} {n : UInt64}
    {flags : Flags} (hf : flags.hasAny .rwx = true) (hc : M.checkRange vpn ppn n = .ok ())
    {segs : List Segment} (hs : M.segments vpn ppn n = .ok segs) :
    (map r vpn ppn n flags).run m = (mapSegments r M vpn ppn flags segs).run m := by
  rw [map_run_of_inside hl.root_box hf (by rwa [hl.mode]), hl.mode, hs, ofHalting_ok, pure_bind]

/-- A request whose range `checkRange` refuses returns the refusal and changes nothing. -/
theorem map_run_refused {m : Machine} {root : TableNode} {nodes : List TableNode}
    (hl : m.LiveSpace M a r held root nodes) {vpn : VirtPage} {ppn : PhysPage} {n : UInt64}
    {flags : Flags} (hf : flags.hasAny .rwx = true) {f : Fault}
    (hc : M.checkRange vpn ppn n = .error f) : (map r vpn ppn n flags).run m = .ok (.error f) m :=
  map_run_of_outside hl.root_box hf (by rwa [hl.mode])

/-- A request without read, write or execute permission halts before any change. -/
theorem map_run_noPermissions {m : Machine} {root : TableNode} {nodes : List TableNode}
    (hl : m.LiveSpace M a r held root nodes) {vpn : VirtPage} {ppn : PhysPage} {n : UInt64}
    {flags : Flags} (hf : flags.hasAny .rwx = false) :
    ∃ h, (map r vpn ppn n flags).run m = .error h { m with log := m.log.printText h.text } :=
  ⟨_, map_run_of_noPermission hl.root_box hf⟩

/-- The call of a request that `checkRange` accepts on a live space, before it starts. -/
def MapCall.ofAccepted (hM : M.Sound) {m : Machine} {root : TableNode} {nodes : List TableNode}
    (hl : m.LiveSpace M a r held root nodes) (vpn : VirtPage) (ppn : PhysPage) (n : UInt64)
    (flags : Flags) (hc : M.checkRange vpn ppn n = .ok ()) {segs : List Segment}
    (hplan : M.Plan vpn ppn n segs) : M.MapCall a where
  mem := m.memory
  root := root
  nodes := nodes
  vpn := vpn
  ppn := ppn
  n := n
  flags := flags
  segs := segs
  is_tree := hl.tree
  fits := ((hM.checkRange_eq_ok vpn ppn n).1 hc).1
  plan := hplan

/-- Before its first change, the call has done no page. -/
theorem MapCall.doing_ofAccepted (hM : M.Sound) {m : Machine} {root : TableNode}
    {nodes : List TableNode} (hl : m.LiveSpace M a r held root nodes) (vpn : VirtPage)
    (ppn : PhysPage) (n : UInt64) (flags : Flags) (hc : M.checkRange vpn ppn n = .ok ())
    {segs : List Segment} (hplan : M.Plan vpn ppn n segs) :
    Doing M a r held (MapCall.ofAccepted hM hl vpn ppn n flags hc hplan)
      (fun w => ∃ s ∈ ([] : List Segment), s.Holds w.toNat) m :=
  ⟨nodes, ⟨hl, Mode.Grows.refl M _ _⟩, Mode.MapCall.Progress.start.congr_done fun w => by simp⟩

/-- A request with read, write or execute permission whose range `checkRange` accepts runs the
call of its plan from its start. The space stays live, with a tree grown out of the one before;
on success every page of the request is done; on a fault the allocator refused a table on the
walk down to a page; a halt means that some page had a leaf before, when every pointer led to a
leaf. -/
theorem map_run_progress (hM : M.Sound) {m : Machine} {root : TableNode} {nodes : List TableNode}
    (hl : m.LiveSpace M a r held root nodes) {vpn : VirtPage} {ppn : PhysPage} {n : UInt64}
    {flags : Flags} (hf : flags.hasAny .rwx = true) (hc : M.checkRange vpn ppn n = .ok ())
    {segs : List Segment} (hs : M.segments vpn ppn n = .ok segs) (hplan : M.Plan vpn ppn n segs) :
    let c := MapCall.ofAccepted hM hl vpn ppn n flags hc hplan
    Ends (fun res m' => (∃ nodes', Mapping M a r held c.root c.mem c.nodes m' nodes') ∧
        (res = .ok () → Doing M a r held c (fun w => ∃ s ∈ c.segs, s.Holds w.toNat) m') ∧
        ∀ f, res = .error f → f.component = .frames ∧
          Refused M a r held c (fun w => ∃ s ∈ c.segs, s.Holds w.toNat) f m')
      (Halted M a r held c) ((map r vpn ppn n flags).run m) := by
  intro c
  rw [map_run_accepted hl hf hc hs]
  exact mapSegments_progress hM c hf segs [] rfl m
    (MapCall.doing_ofAccepted hM hl vpn ppn n flags hc hplan)

/-- A request that returns on a live space either had its range refused, and changed nothing, or
passed both checks with a plan, and its call ended as `map_run_progress` says. -/
theorem LiveSpace.map_returns (hM : M.Sound) {m : Machine} {root : TableNode}
    {nodes : List TableNode} (hl : m.LiveSpace M a r held root nodes) {vpn : VirtPage}
    {ppn : PhysPage} {n : UInt64} {flags : Flags} {res : Except Fault Unit} {m' : Machine}
    (hrun : (map r vpn ppn n flags).run m = .ok res m') :
    (∃ f, M.checkRange vpn ppn n = .error f ∧ res = .error f ∧ m' = m) ∨
    ∃ (hc : M.checkRange vpn ppn n = .ok ()) (segs : List Segment) (hplan : M.Plan vpn ppn n segs),
      M.segments vpn ppn n = .ok segs ∧
      let c := MapCall.ofAccepted hM hl vpn ppn n flags hc hplan
      (∃ nodes', Mapping M a r held c.root c.mem c.nodes m' nodes') ∧
        (res = .ok () → Doing M a r held c (fun w => ∃ s ∈ c.segs, s.Holds w.toNat) m') ∧
        ∀ f, res = .error f → f.component = .frames ∧
          Refused M a r held c (fun w => ∃ s ∈ c.segs, s.Holds w.toNat) f m' := by
  cases hf : flags.hasAny .rwx with
  | false =>
    -- without a permission the request halts, so it does not return
    obtain ⟨h, hrun'⟩ : ∃ h, (map r vpn ppn n flags).run m =
        .error h { m with log := m.log.printText h.text } := map_run_noPermissions hl hf
    rw [hrun'] at hrun
    cases hrun
  | true =>
    -- the statement names the proof that the range is accepted, so split on it as a fact
    have hcases : (∃ f, M.checkRange vpn ppn n = .error f) ∨ M.checkRange vpn ppn n = .ok () := by
      cases M.checkRange vpn ppn n with
      | error f => exact .inl ⟨f, rfl⟩
      | ok u => exact .inr rfl
    rcases hcases with ⟨f, hc⟩ | hc
    · rw [map_run_refused hl hf hc] at hrun
      injection hrun with hres hm
      exact .inl ⟨f, hc, hres.symm, hm.symm⟩
    · obtain ⟨segs, hs, hplan⟩ := hM.segments_plan hc
      have hspec := map_run_progress hM hl hf hc hs hplan
      rw [hrun] at hspec
      exact .inr ⟨hc, segs, hplan, hs, hspec⟩

variable {root : TableNode} {mem₀ : Memory} {nodes₀ : List TableNode}

/-- A mapping request on a live space keeps it live, whatever it ends in: it returns, refuses
its range, returns the allocator's refusal of a table, or halts. -/
theorem map_spec (hM : M.Sound) (vpn : VirtPage) (ppn : PhysPage) (n : UInt64) (flags : Flags) :
    Run.Spec
    (fun m => ∃ nodes, Mapping M a r held root mem₀ nodes₀ m nodes)
    (map r vpn ppn n flags)
    (fun _ m => ∃ nodes, Mapping M a r held root mem₀ nodes₀ m nodes)
    (fun m => ∃ nodes, Mapping M a r held root mem₀ nodes₀ m nodes) := by
  rintro m ⟨nodes, hl, hg⟩
  -- what the call ends in has grown out of the tree at its start, which grew out of `nodes₀`
  have hgrow : ∀ m', (∃ nodes', Mapping M a r held root m.memory nodes m' nodes') →
      ∃ nodes', Mapping M a r held root mem₀ nodes₀ m' nodes' :=
    fun m' ⟨nodes', hl', hg'⟩ => ⟨nodes', hl', hg.trans hg'⟩
  cases hf : flags.hasAny .rwx with
  | false =>
    obtain ⟨h, hrun⟩ : ∃ h, (map r vpn ppn n flags).run m =
        .error h { m with log := m.log.printText h.text } := map_run_noPermissions hl hf
    rw [hrun]
    exact ⟨nodes, hl.log _, hg⟩
  | true =>
    cases hc : M.checkRange vpn ppn n with
    | error f =>
      rw [map_run_refused hl hf hc]
      exact ⟨nodes, hl, hg⟩
    | ok u =>
      obtain ⟨segs, hs, hplan⟩ := hM.segments_plan hc
      exact Ends.mono (map_run_progress hM hl hf hc hs hplan) (fun _ m' h => hgrow m' h.1)
        fun m' h => hgrow m' h.1

end Machine

end Paging
