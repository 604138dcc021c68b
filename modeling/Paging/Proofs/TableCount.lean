import Paging.Proofs.FreshSpace
/-!
# How many tables a mapping makes

A plan of segments needs, below the root, one table of level `L` for every block of level `L`
that holds a page which the plan maps at level `L` or below (`Mode.neededTables`); their number
is `Mode.tablesNeeded`. The tree of a space is keyed by the level and the block of its nodes
(`TableNode.key`), with no key twice.

On a fresh space, a call of `Machine.map` makes only tables that its plan needs
(`Progress.key_mem_neededTables`). When it returns success it has made all of them
(`Progress.exists_key_of_needed`); when the allocator refuses a table, one that the plan needs
is missing (`WalkRefused.needed_not_mem`). So a request on a fresh space either returns with exactly
`tablesNeeded` tables below the root, or returns the allocator's refusal with fewer
(`FreshSpace.map_tables`).
-/

namespace Paging

open FrameAllocator Run

/-- The level and the block of the node: no two nodes of a tree share them. -/
def TableNode.key (T : TableNode) : Nat × Nat :=
  (T.level.toNat, T.block)

namespace Mode

variable {M : Mode}

/-- The blocks of level `L` that hold a page of the segment. -/
def blocksAt (M : Mode) (s : Segment) (L : Level) : Finset Nat :=
  Finset.Ico (s.start.toNat / 2 ^ M.tableShift L) ((s.stop.toNat - 1) / 2 ^ M.tableShift L + 1)

/-- The tables below the root that a plan of segments needs, as keys: at each level below the
top, one for every block that holds a page which the plan maps at that level or below. -/
def neededTables (M : Mode) (segs : List Segment) : Finset (Nat × Nat) :=
  ((Finset.range M.topLevel.toNat).image Nat.toUInt8).biUnion fun L =>
    ((segs.filter fun s => s.level.toNat ≤ L.toNat).toFinset.biUnion fun s =>
      M.blocksAt s L).image fun b => (L.toNat, b)

/-- The number of tables below the root that mapping the request needs, by its plan. -/
def tablesNeeded (M : Mode) (vpn : VirtPage) (ppn : PhysPage) (n : UInt64) : Nat :=
  match M.segments vpn ppn n with
  | .ok segs => (M.neededTables segs).card
  | .error _ => 0

-- A 2 MiB block of pages onto frames at the same offset maps with one leaf of level 1, under one
-- table; a page more needs a table of level 0 as well.
example : Mode.sv39.tablesNeeded 0x80000 0x80000 0x200 = 1 := by decide +kernel
example : Mode.sv39.tablesNeeded 0x80000 0x80000 0x201 = 2 := by decide +kernel

/-- The blocks of a segment are those of its pages. -/
theorem mem_blocksAt {s : Segment} (hs : s.start.toNat < s.stop.toNat) (L : Level) (b : Nat) :
    b ∈ M.blocksAt s L ↔ ∃ w, s.Holds w ∧ w / 2 ^ M.tableShift L = b := by
  have hB : 0 < 2 ^ M.tableShift L := Nat.two_pow_pos _
  rw [blocksAt, Finset.mem_Ico]
  generalize 2 ^ M.tableShift L = B at hB ⊢
  constructor
  · rintro ⟨h₁, h₂⟩
    -- the first page of the segment in the block
    have hs₁ := Nat.lt_mul_div_succ s.start.toNat hB
    rw [Nat.mul_add, Nat.mul_one] at hs₁
    have hs₂ := Nat.mul_le_mul_left B h₁
    have hstop : b * B ≤ s.stop.toNat - 1 := (Nat.le_div_iff_mul_le hB).1 (by omega)
    rw [Nat.mul_comm] at hstop
    refine ⟨max s.start.toNat (B * b), ⟨le_max_left _ _, by omega⟩, ?_⟩
    apply Nat.div_eq_of_lt_le
    · rw [Nat.mul_comm]
      exact le_max_right _ _
    · rw [Nat.add_mul, Nat.one_mul, Nat.mul_comm b B]
      omega
  · rintro ⟨w, ⟨hw₁, hw₂⟩, rfl⟩
    exact ⟨Nat.div_le_div_right hw₁, Nat.lt_succ_of_le (Nat.div_le_div_right (by omega))⟩

/-- A table that a plan needs is one of a level below the top, for the block of a page that the
plan maps at that level or below. -/
theorem mem_neededTables {segs : List Segment} (hsegs : ∀ s ∈ segs, s.start.toNat < s.stop.toNat)
    (p : Nat × Nat) : p ∈ M.neededTables segs ↔ ∃ L : Level, L.toNat < M.topLevel.toNat ∧
      ∃ w, (∃ s ∈ segs, s.Holds w ∧ s.level.toNat ≤ L.toNat) ∧
        p = (L.toNat, w / 2 ^ M.tableShift L) := by
  have htop := M.topLevel.toNat_lt
  simp only [neededTables, Finset.mem_biUnion, Finset.mem_image, Finset.mem_range,
    List.mem_toFinset, List.mem_filter, decide_eq_true_eq]
  constructor
  · rintro ⟨L, ⟨l, hl, rfl⟩, b, ⟨s, ⟨hs, hsl⟩, hb⟩, rfl⟩
    have hlt : l < 256 := by omega
    obtain ⟨w, hw, rfl⟩ := (mem_blocksAt (hsegs s hs) _ b).1 hb
    refine ⟨l.toUInt8, by rwa [UInt8.toNat_ofNat_of_lt' hlt], w, ⟨s, hs, hw, hsl⟩, rfl⟩
  · rintro ⟨L, hL, w, ⟨s, hs, hw, hsl⟩, rfl⟩
    exact ⟨L, ⟨L.toNat, hL, UInt8.ofNat_toNat⟩, _, ⟨s, ⟨hs, hsl⟩,
      (mem_blocksAt (hsegs s hs) L _).2 ⟨w, hw, rfl⟩⟩, rfl⟩

/-- The block of a page that the mode translates, at a level, is its number above the level's
tables. -/
theorem blockOf_of_lt {v : VirtPage} (hv : v.toNat < 2 ^ M.tableShift M.topLevel) (L : Level) :
    M.blockOf v L = v.toNat / 2 ^ M.tableShift L := by
  rw [blockOf, Nat.mod_eq_of_lt hv]

/-- A number below the pages a mode translates is the number of a page. -/
theorem Sound.toNat_toUInt64_of_lt (hM : M.Sound) {w : Nat}
    (hw : w < 2 ^ M.tableShift M.topLevel) : (w.toUInt64 : VirtPage).toNat = w := by
  have hts := hM.tableShift_add_lt (Nat.le_refl _)
  have hle : M.tableShift M.topLevel ≤ 64 := by omega
  exact UInt64.toNat_ofNat_of_lt' (lt_of_lt_of_le hw (Nat.pow_le_pow_right (by norm_num) hle))

namespace Tree

variable {mem : Memory} {a : AllocatorRef} {nodes : List TableNode}

/-- The nodes of a tree have distinct keys. -/
theorem nodup_keys (h : M.Tree mem a nodes) : (nodes.map TableNode.key).Nodup := by
  rw [List.Nodup, List.pairwise_map]
  refine h.distinct.imp fun hne hkey => ?_
  simp only [TableNode.key, Prod.mk.injEq] at hkey
  rcases hne with hl | hb
  · exact hl (UInt8.toNat_inj.1 hkey.1)
  · exact hb hkey.2

/-- Above a node of a page's blocks, up to the top, every level has the node of the page's
block. -/
theorem node_above (hM : M.Sound) (h : M.Tree mem a nodes) {v : VirtPage} :
    ∀ (d : Nat) {N : TableNode}, N ∈ nodes → N.block = M.blockOf v N.level →
      N.level.toNat + d ≤ M.topLevel.toNat →
      ∃ P ∈ nodes, P.level.toNat = N.level.toNat + d ∧ P.block = M.blockOf v P.level := by
  intro d
  induction d with
  | zero => exact fun {N} hN hNb _ => ⟨N, hN, rfl, hNb⟩
  | succ d ih =>
    intro N hN hNb hd
    -- climb to the parent, then on from there
    obtain ⟨P, hP, hPl, hPb, -⟩ :=
      h.parent_of_block hM hN hNb (fun he => by rw [he] at hd; omega)
    obtain ⟨Q, hQ, hQl, hQb⟩ := ih hP hPb (by omega)
    exact ⟨Q, hQ, by omega, hQb⟩

/-- A table serves, at its own level, the block of every page in the slot of its parent's
pointer to it. -/
theorem block_of_parent (hM : M.Sound) (h : M.Tree mem a nodes) {P U : TableNode} (hP : P ∈ nodes)
    (hPl : P.level.toNat = U.level.toNat + 1) {i : UInt64} (hUb : U.block = M.childBlock P i.toNat)
    {w : VirtPage} (hw : M.InSlot P i w) : U.block = M.blockOf w U.level := by
  obtain ⟨-, hwb, hwi⟩ := hw
  have hchild := hM.childBlock_slotIndex w (T := P) (by omega) (h.shaped P hP).1 hwb.symm
  rw [hwi, ← Level.eq_sub_one_of_succ hPl.symm] at hchild
  exact hUb.trans hchild

/-- Above the leaf of a page, every level up to the root's has a table below the root, the one
of the page's block at that level. -/
theorem exists_table_of_leaf {root : TableNode} (hM : M.Sound) (h : M.Tree mem a (root :: nodes))
    (hroot : root.level = M.topLevel) {w : VirtPage} (hw : w.toNat < 2 ^ M.tableShift M.topLevel)
    {e : Entry} {L' : Level} (hleaf : M.LeafAt mem (root :: nodes) w e L') {L : Level}
    (hle : L'.toNat ≤ L.toNat) (hL : L.toNat < M.topLevel.toNat) :
    ∃ T ∈ nodes, T.level = L ∧ T.block = w.toNat / 2 ^ M.tableShift L := by
  obtain ⟨N, hN, rfl, hNb, -⟩ := hleaf
  obtain ⟨P, hP, hPl, hPb⟩ := h.node_above hM (L.toNat - N.level.toNat) hN hNb (by omega)
  have hPL : P.level = L := UInt8.toNat_inj.1 (by omega)
  -- the root is the node of the top level, above every table it serves
  have hProot : P ≠ root := fun he => by
    rw [he, hroot] at hPL
    rw [← hPL] at hL
    omega
  exact ⟨P, (List.mem_cons.1 hP).resolve_left hProot, hPL, by rw [hPb, hPL, blockOf_of_lt hw]⟩

/-- A tree has as many keys below its root as nodes. -/
theorem card_keys {root : TableNode} (h : M.Tree mem a (root :: nodes)) :
    (nodes.map TableNode.key).toFinset.card = nodes.length := by
  have hnd := h.nodup_keys
  rw [List.map_cons, List.nodup_cons] at hnd
  rw [List.toFinset_card_of_nodup hnd.2, List.length_map]

end Tree

/-- A segment of a plan holds at least one page. -/
theorem MapCall.start_lt_stop {a : AllocatorRef} (c : M.MapCall a) :
    ∀ s ∈ c.segs, s.start.toNat < s.stop.toNat :=
  fun s hs => (c.plan.blocked s hs).1

namespace MapCall.Progress

variable {a : AllocatorRef} {c : M.MapCall a} {done : VirtPage → Prop} {mem : Memory}
  {nodes : List TableNode}

/-- On a space whose root had no valid entry before the call, every node below the root is a
table that the call's plan needs: its parent's pointer was written on the way down to a page of a
segment at the node's level or below. -/
theorem key_mem_neededTables (hM : M.Sound) (h : c.Progress done mem (c.root :: nodes))
    (ht : M.Tree mem a (c.root :: nodes)) (hfresh : c.nodes = [])
    (hempty : ∀ i : UInt64, i.toNat < 2 ^ M.indexWidth c.root.level →
      (M.entryAt c.mem c.root.box.ppn i).valid = false)
    (hbelow : ∀ U ∈ nodes, U.level.toNat < M.topLevel.toNat) {U : TableNode} (hU : U ∈ nodes) :
    U.key ∈ M.neededTables c.segs := by
  have hUtop : U.level ≠ M.topLevel := ne_of_apply_ne UInt8.toNat (hbelow U hU).ne
  obtain ⟨T, hT, hTl, i, hi, hUb, hTe⟩ := ht.parent U (List.mem_cons_of_mem _ hU) hUtop
  have hv : (M.entryAt mem T.box.ppn i).valid = true := by
    rw [hTe]
    exact Entry.valid_child _
  rcases h.written T hT i hi hv with ⟨hT₀, hv₀⟩ | ⟨hl, -⟩ | ⟨-, w, hw, s, hs, hsw, hlt⟩
  · -- the root had no valid entry before the call
    rw [hfresh, List.mem_singleton] at hT₀
    subst hT₀
    rw [hempty i hi] at hv₀
    cases hv₀
  · rw [hTe, Entry.isLeaf_child] at hl
    cases hl
  · rw [mem_neededTables c.start_lt_stop]
    refine ⟨U.level, hbelow U hU, w.toNat, ⟨s, hs, hsw, by omega⟩, ?_⟩
    rw [TableNode.key, ht.block_of_parent hM hT hTl hUb hw, blockOf_of_lt hw.1]

/-- On a space whose root had no valid entry before the call, the keys of the nodes below the
root are among the tables that the plan needs. -/
theorem keys_subset_neededTables (hM : M.Sound) (h : c.Progress done mem (c.root :: nodes))
    (ht : M.Tree mem a (c.root :: nodes)) (hfresh : c.nodes = [])
    (hempty : ∀ i : UInt64, i.toNat < 2 ^ M.indexWidth c.root.level →
      (M.entryAt c.mem c.root.box.ppn i).valid = false)
    (hbelow : ∀ U ∈ nodes, U.level.toNat < M.topLevel.toNat) :
    (nodes.map TableNode.key).toFinset ⊆ M.neededTables c.segs := by
  intro p hp
  obtain ⟨U, hU, rfl⟩ := List.mem_map.1 (List.mem_toFinset.1 hp)
  exact h.key_mem_neededTables hM ht hfresh hempty hbelow hU

/-- Once every page of the plan is done, every table that the plan needs is a node below the
root: the leaf of a page of the table's block lies at or below it. -/
theorem exists_key_of_needed (hM : M.Sound) (h : c.Progress done mem (c.root :: nodes))
    (ht : M.Tree mem a (c.root :: nodes)) (hroot : c.root.level = M.topLevel)
    (hall : ∀ w : VirtPage, (∃ s ∈ c.segs, s.Holds w.toNat) → done w) {p : Nat × Nat}
    (hp : p ∈ M.neededTables c.segs) : ∃ U ∈ nodes, U.key = p := by
  obtain ⟨L, hL, w, ⟨s, hs, hsw, hsl⟩, rfl⟩ := (mem_neededTables c.start_lt_stop p).1 hp
  have hw : w < 2 ^ M.tableShift M.topLevel := by
    have := c.stop_le hs
    have := hsw.2
    omega
  have hv := hM.toNat_toUInt64_of_lt hw
  rw [← hv] at hsw hw
  obtain ⟨T, hT, hTl, hTb⟩ := ht.exists_table_of_leaf hM hroot hw
    (h.leaf _ (hall _ ⟨s, hs, hsw⟩) s hs hsw) hsl hL
  exact ⟨T, hT, by rw [TableNode.key, hTl, hTb, hv]⟩

end MapCall.Progress

end Mode

namespace Machine

variable {M : Mode} {a : AllocatorRef} {c : M.MapCall a} {m : Machine} {nodes : List TableNode}

/-- The table that the allocator refused, on the walk down to a page of a segment of the plan, is
one that the plan needs, and no node of the tree. -/
theorem WalkRefused.needed_not_mem (hM : M.Sound) {q : VirtPage} {s : Segment} {f : Fault}
    (hr : WalkRefused M a m (c.root :: nodes) q s.level.toNat f)
    (ht : M.Tree m.memory a (c.root :: nodes)) (hs : s ∈ c.segs) (hq : s.Holds q.toNat) :
    ∃ p ∈ M.neededTables c.segs, ∀ U ∈ nodes, U.key ≠ p := by
  obtain ⟨T, hT, hTb, hlt, hinv, -⟩ := hr
  have hTtop : T.level.toNat ≤ M.topLevel.toNat := (ht.shaped T hT).1
  have hsub : (T.level - 1).toNat = T.level.toNat - 1 := Level.toNat_sub_one (by omega)
  have hq' : q.toNat < 2 ^ M.tableShift M.topLevel := by
    have := c.stop_le hs
    have := hq.2
    omega
  refine ⟨((T.level - 1).toNat, q.toNat / 2 ^ M.tableShift (T.level - 1)), ?_, ?_⟩
  · rw [Mode.mem_neededTables c.start_lt_stop]
    exact ⟨T.level - 1, by omega, q.toNat, ⟨s, hs, hq, by omega⟩, rfl⟩
  · -- the table's parent would point to it from the entry the walk found invalid
    intro U hU hkey
    simp only [TableNode.key, Prod.mk.injEq] at hkey
    have hUl : U.level = T.level - 1 := UInt8.toNat_inj.1 hkey.1
    have hUb : U.block = M.blockOf q U.level := by
      rw [hkey.2, hUl, Mode.blockOf_of_lt hq']
    obtain ⟨P, hP, hPl, hPb, hPe⟩ := ht.parent_of_block hM (List.mem_cons_of_mem _ hU) hUb
      (fun he => by rw [hUl] at he; rw [he] at hsub; omega)
    have hPT : P.level = T.level := UInt8.toNat_inj.1 (by rw [hPl, hUl]; omega)
    obtain rfl := ht.eq_of_level_block hP hT hPT (by rw [hPb, hTb, hPT])
    rw [hPe, Entry.valid_child] at hinv
    cases hinv

/-- A request with read, write or execute permission, whose range `checkRange` accepts, on a
fresh space. When it returns success, the space has exactly `tablesNeeded` tables below its root;
when it returns a fault, it has fewer, and the fault is the allocator's refusal of the frames of
a table. What `Untouched` names is left alone either way. -/
theorem FreshSpace.map_tables (hM : M.Sound) {r : SpaceRef} {held : List PhysPage}
    {root : TableNode} (hf : m.FreshSpace M a r held root) {vpn : VirtPage} {ppn : PhysPage}
    {n : UInt64} {flags : Flags} (hflags : flags.hasAny .rwx = true)
    (hc : M.checkRange vpn ppn n = .ok ()) :
    ∃ res m' nodes, (map r vpn ppn n flags).run m = .ok res m' ∧
      m'.LiveSpace M a r held root nodes ∧ Untouched m m' ∧
      (res = .ok () → nodes.length = M.tablesNeeded vpn ppn n) ∧
      (∀ f, res = .error f → nodes.length < M.tablesNeeded vpn ppn n ∧
        ∃ L tf, M.tableFrames L = .ok tf ∧ (m'.cellAt a).frames.allocFrames tf tf = .error f) := by
  obtain ⟨segs, hs, hplan⟩ := hM.segments_plan hc
  have hneeded : M.tablesNeeded vpn ppn n = (M.neededTables segs).card := by
    rw [Mode.tablesNeeded, hs]
  rw [hneeded]
  obtain ⟨res, m', hrun, hkeep, -, hok, herr⟩ := hf.map_returns hM hflags hc hs hplan
  cases res with
  | ok u =>
    -- every page is done: the needed tables are all there, and no other
    obtain ⟨nodes, ⟨hl, -⟩, hp⟩ := hok rfl
    have hsub := hp.keys_subset_neededTables hM hl.tree rfl hf.empty hl.below_root
    have hsup : M.neededTables segs ⊆ (nodes.map TableNode.key).toFinset := fun p hp' => by
      obtain ⟨U, hU, rfl⟩ := hp.exists_key_of_needed hM hl.tree hl.root_level (fun _ hw => hw) hp'
      exact List.mem_toFinset.2 (List.mem_map_of_mem hU)
    refine ⟨_, m', nodes, hrun, hl, hkeep, fun _ => ?_, fun f h => (by cases h)⟩
    rw [← hl.tree.card_keys, Finset.Subset.antisymm hsub hsup]
    rfl
  | error f =>
    -- the table refused is needed and missing
    obtain ⟨-, done, -, nodes, ⟨hl, -⟩, hp, q, s, hs', hq, hr⟩ := herr f rfl
    have hsub := hp.keys_subset_neededTables hM hl.tree rfl hf.empty hl.below_root
    obtain ⟨p, hpn, hpk⟩ := hr.needed_not_mem hM hl.tree hs' hq
    have hlt : (nodes.map TableNode.key).toFinset ⊂ M.neededTables segs := by
      refine (Finset.ssubset_iff_of_subset hsub).2 ⟨p, hpn, fun hp' => ?_⟩
      obtain ⟨U, hU, hUp⟩ := List.mem_map.1 (List.mem_toFinset.1 hp')
      exact hpk U hU hUp
    obtain ⟨T, -, -, -, -, tf, htf, ha⟩ := hr
    refine ⟨_, m', nodes, hrun, hl, hkeep, fun h => (by cases h), fun g hg => ?_⟩
    cases hg
    exact ⟨hl.tree.card_keys ▸ Finset.card_lt_card hlt, T.level - 1, tf, htf, ha⟩

end Machine

/-! ## A frame for each table of `sv39` -/

namespace FrameAllocator

/-- A request for one frame aligned to one frame is a request for one frame. -/
theorem allocFrames_one_one (a : FrameAllocator) : a.allocFrames 1 1 = a.allocFrame :=
  rfl

end FrameAllocator

namespace Mode

/-- A table of `sv39` takes one frame, at every level. -/
theorem sv39_framesOf (L : Level) : Mode.sv39.framesOf L = 1 := by
  unfold framesOf indexWidth
  split <;> rfl

theorem sv39_tableFrames {L : Level} {tf : UInt64} (h : Mode.sv39.tableFrames L = .ok tf) :
    tf = 1 := by
  unfold tableFrames tableEntries indexBits at h
  cases hc : Mode.sv39.checkLevel L with
  | error e =>
    rw [hc] at h
    cases h
  | ok u =>
    rw [hc] at h
    have h9 : (if L = Mode.sv39.topLevel then Mode.sv39.rootIndexBits
        else Mode.sv39.entriesShift) = 9 := by
      split <;> rfl
    simp only [bind, Except.bind, pure, Except.pure, h9] at h
    injection h with h
    rw [← h]
    rfl

end Mode

namespace Machine

variable {a : AllocatorRef} {r : SpaceRef} {held : List PhysPage} {m : Machine}

/-- Releasing a space of mode `sv39` gives back a frame for its root and one for each table. -/
theorem LiveSpace.length_releaseOrder_sv39 {root : TableNode} {nodes : List TableNode}
    (h : m.LiveSpace .sv39 a r held root nodes) :
    (m.spaceAt r).releaseOrder.length = nodes.length + 1 := by
  have hone : ∀ T ∈ root :: nodes, T.box.frames.toNat = 1 := fun T hT => by
    rw [(h.tree.shaped T hT).2.2.1, Mode.sv39_framesOf]
  have hsum : ((nodes.map TableNode.box).map fun b => b.frames.toNat).sum = nodes.length := by
    rw [List.map_map]
    show (nodes.map fun T => T.box.frames.toNat).sum = _
    rw [List.map_congr_left (fun T hT => hone T (List.mem_cons_of_mem _ hT)), List.map_const',
      List.sum_replicate, smul_eq_mul, Nat.mul_one]
  rw [h.releaseOrder_eq, List.length_append, FrameBox.length_flatMap_frameList, List.map_reverse,
    List.sum_reverse, hsum, FrameBox.frameList, length_frameRun, hone root (List.mem_cons_self ..)]

/-- The frames free in the allocator of a live space of mode `sv39`, those of its other clients,
the root's and one for each table below it make up the allocator's range. -/
theorem LiveSpace.freeFrames_add_sv39 {root : TableNode} {nodes : List TableNode}
    (hl : m.LiveSpace .sv39 a r held root nodes) :
    (m.cellAt a).frames.freeFrames.toNat + held.length + nodes.length + 1 =
      ((m.cellAt a).frames.stop - (m.cellAt a).frames.start).toNat := by
  have h := hl.accounts.freeFrames_add_length
  rw [List.length_append, hl.length_releaseOrder_sv39] at h
  omega

/-- Over the allocator of a live space of mode `sv39`, grown from `m` with the allocator's range
left alone, the frames free in `m` are those free now, one for the root and one for each table
below it. -/
theorem LiveSpace.freeFrames_sv39 {root : TableNode} {nodes : List TableNode} {m' : Machine}
    (hacc : Accounts (m.cellAt a).frames held) (hl : m'.LiveSpace .sv39 a r held root nodes)
    (hU : Untouched m m') :
    (m.cellAt a).frames.freeFrames.toNat =
      (m'.cellAt a).frames.freeFrames.toNat + nodes.length + 1 := by
  have hcell := hU.range_cellAt a
  simp only [AllocatorCell.range, Prod.mk.injEq] at hcell
  have h₀ := hacc.freeFrames_add_length
  have h₁ := hl.freeFrames_add_sv39
  rw [hcell.1, hcell.2] at h₁
  omega

/-- On a fresh space of mode `sv39`, a request with read, write or execute permission never
halts. It returns a fault exactly when `checkRange` refuses its range with that fault, or when
the allocator has fewer frames free than the tables the request needs, and then the allocator is
out of memory. -/
theorem FreshSpace.map_sv39 {root : TableNode} (hf : m.FreshSpace .sv39 a r held root)
    {vpn : VirtPage} {ppn : PhysPage} {n : UInt64} {flags : Flags}
    (hflags : flags.hasAny .rwx = true) :
    ∃ res m' nodes, (map r vpn ppn n flags).run m = .ok res m' ∧
      m'.LiveSpace .sv39 a r held root nodes ∧ ∀ f, res = .error f ↔
        (Mode.sv39.checkRange vpn ppn n = .error f ∨ (Mode.sv39.checkRange vpn ppn n = .ok () ∧
          (m.cellAt a).frames.freeFrames.toNat < Mode.sv39.tablesNeeded vpn ppn n ∧
          f = .outOfMemory)) := by
  cases hc : Mode.sv39.checkRange vpn ppn n with
  | error f =>
    refine ⟨_, _, [], map_run_refused hf.live hflags hc, hf.live, fun g => ?_⟩
    simp
  | ok u =>
    obtain ⟨res, m', nodes, hrun, hl, hU, hok, herr⟩ := hf.map_tables Mode.sound_sv39 hflags hc
    -- the frames free before are those free after, and one for each table made
    have hcell := hU.range_cellAt a
    simp only [AllocatorCell.range, Prod.mk.injEq] at hcell
    have h₀ := hf.live.freeFrames_add_sv39
    have h₁ := hl.freeFrames_add_sv39
    rw [hcell.1, hcell.2, ← h₀, List.length_nil] at h₁
    refine ⟨res, m', nodes, hrun, hl, fun g => ?_⟩
    cases res with
    | ok u' =>
      have hT := hok rfl
      have henough : ¬ (m.cellAt a).frames.freeFrames.toNat < Mode.sv39.tablesNeeded vpn ppn n := by
        omega
      simp [henough]
    | error f =>
      obtain ⟨hfew, L, tf, htf, ha⟩ := herr f rfl
      rw [Mode.sv39_tableFrames htf, allocFrames_one_one] at ha
      obtain ⟨rfl, hfree⟩ := allocFrame_eq_error ha
      rw [hfree, UInt64.toNat_zero] at h₁
      have hlack : (m.cellAt a).frames.freeFrames.toNat < Mode.sv39.tablesNeeded vpn ppn n := by
        omega
      simp [hlack, eq_comm]

/-- On a fresh space of mode `sv39`, a request with read, write or execute permission whose range
`checkRange` accepts, over an allocator with a frame free for each table it needs, returns success
with exactly those tables below the root. -/
theorem FreshSpace.map_sv39_ok {root : TableNode} (hf : m.FreshSpace .sv39 a r held root)
    {vpn : VirtPage} {ppn : PhysPage} {n : UInt64} {flags : Flags}
    (hflags : flags.hasAny .rwx = true) (hc : Mode.sv39.checkRange vpn ppn n = .ok ())
    (hfree : Mode.sv39.tablesNeeded vpn ppn n ≤ (m.cellAt a).frames.freeFrames.toNat) :
    ∃ m' nodes, (map r vpn ppn n flags).run m = .ok (.ok ()) m' ∧
      m'.LiveSpace .sv39 a r held root nodes ∧ nodes.length = Mode.sv39.tablesNeeded vpn ppn n := by
  obtain ⟨res, m', nodes, hrun, hl, -, hok, -⟩ := hf.map_tables Mode.sound_sv39 hflags hc
  obtain ⟨res', m'', -, hrun', -, hres⟩ := hf.map_sv39 hflags
  rw [hrun] at hrun'
  injection hrun' with hsame
  subst hsame
  cases res with
  | ok u => exact ⟨m', nodes, hrun, hl, hok rfl⟩
  | error f =>
    -- a fault is the refusal of the range, which was accepted, or too few frames
    rcases (hres f).1 rfl with hc' | ⟨-, hlt, -⟩
    · rw [hc] at hc'
      cases hc'
    · omega

end Machine

end Paging
