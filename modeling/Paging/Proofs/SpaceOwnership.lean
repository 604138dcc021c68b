import Paging.Proofs.MapProgress
/-!
# Who owns the frames of a space

A space is made over a frame allocator that other clients may use too. From the making of the
space on, the machine goes through maps on the space and through the other clients' requests and
returns, each client giving back only frames it holds (`Machine.SpaceRun`). Every state on the
way keeps the space live (`SpaceRun.live`), and so:

* the root is a table of the top level, aligned to its length;
* every valid entry that is not a leaf, in a table that a walk from the root reaches, points to
  the first frame of a table of the level below, which is exactly one of the boxes that the space
  lists below its root; distinct entries point to distinct boxes, and every listed box is pointed
  to by an entry that a walk reaches;
* the frames that the space counts as its own are the frames it holds from the allocator, which
  has handed out exactly those and the frames of the other clients;
* releasing the space gives every one of these frames back once, the tables below the root the
  most recent first, then the root; it never halts, and it leaves the space without frames. A
  second release gives nothing back, and looking up or mapping in the released space halts.

A live space owns its frames in this way (`LiveSpace.ownsFrames`); that every space of a run
does is `space_frames_owned_and_released`, stated with the histories of requests.
-/

namespace Paging

open FrameAllocator Run

/-- The tables that a walk from the root table at `root` reaches in `mem`, with their levels:
the root at the top level, and the table that a valid entry that is not a leaf of a reached
table points to, one level down. -/
inductive Mode.Reaches (M : Mode) (mem : Memory) (root : PhysPage) : PhysPage → Level → Prop
  | root : M.Reaches mem root root M.topLevel
  | child {t : PhysPage} {L : Level} {i : UInt64} : M.Reaches mem root t L →
      i.toNat < 2 ^ M.indexWidth L → (M.entryAt mem t i).valid = true →
      (M.entryAt mem t i).isLeaf = false → M.Reaches mem root (M.entryAt mem t i).ppn (L - 1)

/-- Entry `i` of the level-`L` table at `t`, a table that a walk from the root table at `root`
reaches, is a valid entry that points down to the table at `child`. -/
structure Mode.PointsDown (M : Mode) (mem : Memory) (root t : PhysPage) (L : Level) (i : UInt64)
    (child : PhysPage) : Prop where
  reaches : M.Reaches mem root t L
  index_lt : i.toNat < 2 ^ M.indexWidth L
  valid : (M.entryAt mem t i).valid = true
  not_leaf : (M.entryAt mem t i).isLeaf = false
  ppn_eq : (M.entryAt mem t i).ppn = child

/-- A shaped node holds a table of its level. -/
theorem Mode.Sound.tableFrames_of_shaped {M : Mode} (hM : M.Sound) {a : AllocatorRef}
    {T : TableNode} (hT : M.Shaped a T) : M.tableFrames T.level = .ok T.box.frames := by
  obtain ⟨tf, htf, htfv⟩ := hM.tableFrames_eq hT.1
  rw [htf, UInt64.toNat_inj.1 (htfv.trans (hT.2.2.1.trans rfl).symm)]

/-- A box of frames holds its first frame. -/
theorem FrameBox.ppn_mem_frameList {b : FrameBox} (hb : 0 < b.frames.toNat) :
    b.ppn ∈ b.frameList := by
  obtain ⟨n, hn⟩ : ∃ n, b.frames.toNat = n + 1 := ⟨b.frames.toNat - 1, by omega⟩
  rw [FrameBox.frameList, hn, frameRun_succ]
  exact List.mem_cons_self ..

/-- No frame lies in two boxes that lie apart. -/
theorem FrameBox.Apart.not_mem {b c : FrameBox} (h : b.Apart c)
    (hbs : b.ppn.toNat + b.frames.toNat ≤ UInt64.size)
    (hcs : c.ppn.toNat + c.frames.toNat ≤ UInt64.size) {p : PhysPage} (hb : p ∈ b.frameList) :
    p ∉ c.frameList := by
  intro hc
  rw [FrameBox.frameList, mem_frameRun hbs, UInt64.le_iff_toNat_le] at hb
  rw [FrameBox.frameList, mem_frameRun hcs, UInt64.le_iff_toNat_le] at hc
  unfold FrameBox.Apart at h
  omega

namespace Mode.Tree

variable {M : Mode} {mem : Memory} {a : AllocatorRef} {root : TableNode} {nodes : List TableNode}

/-- A table that a walk from the root reaches is a node of the tree, at the level it is
reached at. -/
theorem node_of_reaches (h : M.Tree mem a (root :: nodes)) (hroot : root.level = M.topLevel)
    {t : PhysPage} {L : Level} (hr : M.Reaches mem root.box.ppn t L) :
    ∃ T ∈ root :: nodes, T.box.ppn = t ∧ T.level = L := by
  induction hr with
  | root => exact ⟨root, List.mem_cons_self .., rfl, hroot⟩
  | child _ hi hv hleaf ih =>
    obtain ⟨T, hT, rfl, rfl⟩ := ih
    obtain ⟨U, hU, hUl, -, hUe⟩ := h.pointer T hT _ hi hv hleaf
    exact ⟨U, hU, (h.ppn_of_pointer hU hUe).symm, Level.eq_sub_one_of_succ hUl⟩

/-- Every node of the tree is reached from the root, at its own level. -/
theorem reaches_of_node (h : M.Tree mem a (root :: nodes)) (hroot : root.level = M.topLevel)
    (hbelow : ∀ U ∈ nodes, U.level.toNat < M.topLevel.toNat) :
    ∀ U ∈ root :: nodes, M.Reaches mem root.box.ppn U.box.ppn U.level := by
  -- induction on the distance from the top level, through the pointer of the parent
  suffices hd : ∀ d, ∀ U ∈ root :: nodes, M.topLevel.toNat - U.level.toNat = d →
      M.Reaches mem root.box.ppn U.box.ppn U.level from
    fun U hU => hd _ U hU rfl
  intro d
  induction d using Nat.strong_induction_on with
  | _ d ih =>
    intro U hU hd
    rcases List.mem_cons.1 hU with rfl | hU'
    · rw [hroot]
      exact .root
    · have hlt := hbelow U hU'
      obtain ⟨T, hT, hTl, i, hi, -, hTe⟩ := h.parent U hU (fun he => by rw [he] at hlt; omega)
      have hTr := ih (M.topLevel.toNat - T.level.toNat) (by omega) T hT rfl
      have hUr := hTr.child hi (by rw [hTe]; simp) (by rw [hTe]; simp)
      rwa [h.ppn_of_pointer hU hTe, ← Level.eq_sub_one_of_succ hTl.symm] at hUr

/-- A pointer that a walk from the root reaches leads from a node to the node of the level below
that its entry covers. -/
theorem node_of_pointsDown (h : M.Tree mem a (root :: nodes)) (hroot : root.level = M.topLevel)
    {t c : PhysPage} {L : Level} {i : UInt64} (hp : M.PointsDown mem root.box.ppn t L i c) :
    ∃ T ∈ root :: nodes, T.box.ppn = t ∧ T.level = L ∧
      ∃ U ∈ root :: nodes, U.box.ppn = c ∧ U.level.toNat + 1 = L.toNat ∧
        U.block = M.childBlock T i.toNat := by
  obtain ⟨T, hT, rfl, rfl⟩ := h.node_of_reaches hroot hp.reaches
  obtain ⟨U, hU, hUl, hUb, hUe⟩ := h.pointer T hT _ hp.index_lt hp.valid hp.not_leaf
  exact ⟨T, hT, rfl, rfl, U, hU, (h.ppn_of_pointer hU hUe).symm.trans hp.ppn_eq, hUl, hUb⟩

/-- Two pointers that walks reach and that lead to the same table are the same entry of the
same table. -/
theorem pointsDown_unique (h : M.Tree mem a (root :: nodes)) (hroot : root.level = M.topLevel)
    {t t' c : PhysPage} {L L' : Level} {i i' : UInt64} (hp : M.PointsDown mem root.box.ppn t L i c)
    (hp' : M.PointsDown mem root.box.ppn t' L' i' c) : t = t' ∧ L = L' ∧ i = i' := by
  obtain ⟨T, hT, rfl, rfl, U, hU, rfl, hUl, hUb⟩ := h.node_of_pointsDown hroot hp
  obtain ⟨T', hT', rfl, rfl, U', hU', hUU', hUl', hUb'⟩ := h.node_of_pointsDown hroot hp'
  -- the two tables pointed to share their first frame, so they are one node
  obtain ⟨hUU, -⟩ := h.eq_of_slotKey_eq hU' hU (i := 0) (j := 0) (by positivity) (by positivity)
    (by rw [hUU'])
  subst hUU
  have hTT : T.level = T'.level := UInt8.toNat_inj.1 (by omega)
  obtain ⟨hb, hii⟩ := childBlock_inj hTT hp.index_lt hp'.index_lt (hUb.symm.trans hUb')
  obtain rfl := h.eq_of_level_block hT hT' hTT hb
  exact ⟨rfl, rfl, UInt64.toNat_inj.1 hii⟩

/-- Every node below the root is pointed to by an entry that a walk from the root reaches. -/
theorem pointsDown_of_node (h : M.Tree mem a (root :: nodes)) (hroot : root.level = M.topLevel)
    (hbelow : ∀ U ∈ nodes, U.level.toNat < M.topLevel.toNat) {U : TableNode}
    (hU : U ∈ nodes) : ∃ t L i, M.PointsDown mem root.box.ppn t L i U.box.ppn := by
  have hlt := hbelow U hU
  obtain ⟨T, hT, -, i, hi, -, hTe⟩ :=
    h.parent U (List.mem_cons_of_mem _ hU) (fun he => by rw [he] at hlt; omega)
  refine ⟨T.box.ppn, T.level, i, h.reaches_of_node hroot hbelow T hT, hi, ?_, ?_, ?_⟩
  · rw [hTe]
    simp
  · rw [hTe]
    simp
  · exact h.ppn_of_pointer (List.mem_cons_of_mem _ hU) hTe

/-- A frame lies in the box of at most one node. -/
theorem index_eq_of_mem_frameList (h : M.Tree mem a nodes) {j k : Nat} (hj : j < nodes.length)
    (hk : k < nodes.length) {p : PhysPage} (hpj : p ∈ nodes[j].box.frameList)
    (hpk : p ∈ nodes[k].box.frameList) : j = k := by
  have hsize : ∀ n : Nat, (hn : n < nodes.length) →
      nodes[n].box.ppn.toNat + nodes[n].box.frames.toNat ≤ UInt64.size := fun n hn =>
    (h.shaped _ (List.getElem_mem hn)).end_le_size
  by_contra hne
  rcases Nat.lt_or_gt_of_ne hne with hlt | hlt
  · exact (List.pairwise_iff_getElem.1 h.apart j k hj hk hlt).not_mem (hsize j hj) (hsize k hk)
      hpj hpk
  · exact (List.pairwise_iff_getElem.1 h.apart k j hk hj hlt).not_mem (hsize k hk) (hsize j hj)
      hpk hpj

end Mode.Tree

/-! ## Counting the frames of a space -/

/-- Adding up the frames of boxes in a word does not wrap while the total fits. -/
theorem FrameBox.toNat_foldl_frames (bs : List FrameBox) :
    ∀ n : UInt64, n.toNat + (bs.map fun b => b.frames.toNat).sum < UInt64.size →
      (bs.foldl (fun n b => n + b.frames) n).toNat =
        n.toNat + (bs.map fun b => b.frames.toNat).sum := by
  induction bs with
  | nil => simp
  | cons b bs ih =>
    intro n hn
    simp only [List.map_cons, List.sum_cons, List.foldl_cons] at hn ⊢
    have hnb : (n + b.frames).toNat = n.toNat + b.frames.toNat := by
      rw [UInt64.toNat_add, Nat.mod_eq_of_lt (by simp only [UInt64.size] at hn; omega)]
    rw [ih _ (by omega), hnb, Nat.add_assoc]

theorem FrameBox.length_flatMap_frameList (bs : List FrameBox) :
    (bs.flatMap FrameBox.frameList).length = (bs.map fun b => b.frames.toNat).sum := by
  simp [List.length_flatMap, FrameBox.frameList]

/-- The count of frames that a space keeps is the number of frames its release gives back, as
long as that number fits in a word. -/
theorem AddressSpace.toNat_ownedFrames {s : AddressSpace}
    (hlen : s.releaseOrder.length < UInt64.size) : s.ownedFrames.toNat = s.releaseOrder.length := by
  unfold AddressSpace.ownedFrames
  unfold AddressSpace.releaseOrder at hlen ⊢
  cases hr : s.root with
  | none => rfl
  | some root =>
    rw [hr, List.length_append, FrameBox.length_flatMap_frameList, List.map_reverse,
      List.sum_reverse, FrameBox.frameList, length_frameRun] at hlen
    dsimp only
    rw [List.length_append, FrameBox.length_flatMap_frameList, List.map_reverse, List.sum_reverse,
      FrameBox.frameList, length_frameRun, ← Array.foldl_toList,
      FrameBox.toNat_foldl_frames _ _ (by omega), Nat.add_comm]

namespace Machine

variable {M : Mode} {a : AllocatorRef} {r : SpaceRef} {held : List PhysPage}

/-! ## Making a space -/

theorem newSpace_run_ok (hM : M.Sound) {tf : UInt64} (htf : M.tableFrames M.topLevel = .ok tf)
    {m : Machine} {ppn : PhysPage} {fr : FrameAllocator}
    (ha : (m.cellAt a).frames.allocFrames tf tf = .ok (ppn, fr)) :
    let m₁ := (m.withCell a ⟨fr, (m.cellAt a).calls.push (.allocFrames tf tf (.ok ppn))⟩)
      |>.withMemory (m.memory.fill (M.physAddrOf ppn) (2 ^ M.indexWidth M.topLevel * 8) 0)
    (newSpace M a).run m = .ok (.ok ⟨m.spaces.size⟩)
      { m₁ with
        spaces := m₁.spaces.push { mode := M, alloc := a, root := some ⟨ppn, tf, a⟩ } } := by
  intro m₁
  rw [newSpace, bind_run_ok (newTable_run_ok hM (Nat.le_refl _) htf ha)]
  rfl

theorem newSpace_run_error {tf : UInt64} (htf : M.tableFrames M.topLevel = .ok tf) {m : Machine}
    {f : Fault} (ha : (m.cellAt a).frames.allocFrames tf tf = .error f) :
    ∃ m', (newSpace M a).run m = .ok (.error f) m' := by
  rw [newSpace, bind_run_ok (newTable_run_error htf ha)]
  exact ⟨_, rfl⟩

/-- A space made from the frames that the allocator handed out from `ppn` holds them as its root
alone, over a cleared table, and the allocator's accounts list them after the frames of its
other clients; this needs no bound on the allocator's frames. -/
theorem newSpace_run_ok_root (hM : M.Sound) {tf : UInt64} (htf : M.tableFrames M.topLevel = .ok tf)
    {m m' : Machine} {ppn : PhysPage} {fr : FrameAllocator} (hlt : a.index < m.allocators.size)
    (hacc : Accounts (m.cellAt a).frames held)
    (ha : (m.cellAt a).frames.allocFrames tf tf = .ok (ppn, fr))
    (h : (newSpace M a).run m = .ok (.ok r) m') :
    m'.spaceAt r = { mode := M, alloc := a, root := some ⟨ppn, tf, a⟩ } ∧
      r.index < m'.spaces.size ∧ a.index < m'.allocators.size ∧
      m'.memory = m.memory.fill (M.physAddrOf ppn) (2 ^ M.indexWidth M.topLevel * 8) 0 ∧
      (m'.cellAt a).frames = fr ∧ Accounts fr (held ++ (m'.spaceAt r).releaseOrder) := by
  rw [newSpace_run_ok hM htf ha] at h
  injection h with h1 h2
  cases h1
  have hsp : m'.spaceAt ⟨m.spaces.size⟩ = { mode := M, alloc := a, root := some ⟨ppn, tf, a⟩ } := by
    rw [← h2]
    simp [spaceAt, withCell, withMemory]
  refine ⟨hsp, by rw [← h2]; simp [withCell, withMemory],
    by rw [← h2]; simpa [withCell, withMemory] using hlt, by rw [← h2]; rfl, ?_, ?_⟩
  · have hca : m'.cellAt a = ⟨fr, (m.cellAt a).calls.push (.allocFrames tf tf (.ok ppn))⟩ := by
      rw [← h2]
      exact cellAt_withCell_self m hlt _
    rw [hca]
  · rw [hsp]
    simpa [AddressSpace.releaseOrder, FrameBox.frameList] using hacc.allocFrames ha

/-- A space made over an allocator whose accounts hold is live, with its root alone: the root
table is cleared, and its frames move from the allocator to the space. -/
theorem LiveSpace.new (hM : M.Sound) {m m' : Machine} (hlt : a.index < m.allocators.size)
    (hacc : Accounts (m.cellAt a).frames held) (hstop : (m.cellAt a).frames.stop.toNat ≤ 2 ^ 44)
    (h : (newSpace M a).run m = .ok (.ok r) m') :
    ∃ root, m'.LiveSpace M a r held root [] := by
  obtain ⟨tf, htf, htfv⟩ := hM.tableFrames_eq (L := M.topLevel) (Nat.le_refl _)
  cases ha : (m.cellAt a).frames.allocFrames tf tf with
  | error f =>
    obtain ⟨m'', h'⟩ := newSpace_run_error htf ha
    rw [h'] at h
    cases h
  | ok p =>
    obtain ⟨ppn, fr⟩ := p
    obtain ⟨hsp, hlts, hlta, hmem, hfr, hacc'⟩ := newSpace_run_ok_root hM htf hlt hacc ha h
    let root : TableNode := ⟨⟨ppn, tf, a⟩, M.topLevel, 0⟩
    have hroot : M.Shaped a root :=
      shaped_of_allocFrames hM (Nat.le_refl _) htf hacc hstop ha _
    refine ⟨root,
      { lt_spaces := hlts
        lt_allocators := hlta
        mode := by rw [hsp]
        alloc := by rw [hsp]
        root_box := by rw [hsp]
        tables := by rw [hsp]; rfl
        root_level := rfl
        root_block := rfl
        below_root := by simp
        tree := ?_
        accounts := by rw [hfr]; exact hacc'
        stop_le := by rw [hfr, (allocFrames_range ha).2]; exact hstop }⟩
    -- the cleared root alone is a tree: it has no valid entry
    refine ⟨fun T hT => by rw [List.mem_singleton.1 hT]; exact hroot,
      List.pairwise_singleton _ _, List.pairwise_singleton _ _, ?_, ?_⟩
    · intro T hT i hi hv
      obtain rfl := List.mem_singleton.1 hT
      rw [hmem, hM.entryAt_fill_self m.memory hroot hi, Entry.valid_zero] at hv
      exact Bool.noConfusion hv
    · intro U hU htop
      exact absurd (by rw [List.mem_singleton.1 hU]) htop

/-! ## Other clients of the allocator -/

namespace LiveSpace

variable {m m' : Machine} {root : TableNode} {nodes : List TableNode}

/-- A frame handed out to another client joins the frames it holds. -/
theorem allocFrame (h : m.LiveSpace M a r held root nodes) {p : PhysPage}
    (hrun : (allocFrame a).run m = .ok (.ok p) m') :
    m'.LiveSpace M a r (held ++ [p]) root nodes := by
  cases hc : (m.cellAt a).frames.allocFrame with
  | error f =>
    rw [allocFrame_run_error hc] at hrun
    cases hrun
  | ok q =>
    obtain ⟨q, fr⟩ := q
    rw [allocFrame_run_ok hc] at hrun
    injection hrun with h1 h2
    cases h1
    subst h2
    refine h.withFrames ((h.accounts.allocFrame hc).of_perm ?_) (allocFrame_range hc).2 _
    rw [List.append_assoc, List.append_assoc]
    exact List.perm_append_comm.append_left held

/-- A run of frames handed out to another client joins the frames it holds. -/
theorem allocFrames (h : m.LiveSpace M a r held root nodes) {count align p : UInt64}
    (hrun : (allocFrames a count align).run m = .ok (.ok p) m') :
    m'.LiveSpace M a r (held ++ frameRun p count.toNat) root nodes := by
  cases hc : (m.cellAt a).frames.allocFrames count align with
  | error f =>
    rw [allocFrames_run_error hc] at hrun
    cases hrun
  | ok q =>
    obtain ⟨q, fr⟩ := q
    rw [allocFrames_run_ok hc] at hrun
    injection hrun with h1 h2
    cases h1
    subst h2
    exact h.allocTable hc _

/-- A refused request changes only the allocator's log of calls. -/
theorem refused (h : m.LiveSpace M a r held root nodes) {count align : UInt64} {f : Fault}
    (hrun : (Machine.allocFrame a).run m = .ok (.error f) m' ∨
      (Machine.allocFrames a count align).run m = .ok (.error f) m') :
    m'.LiveSpace M a r held root nodes := by
  rcases hrun with hrun | hrun
  · cases hc : (m.cellAt a).frames.allocFrame with
    | error g =>
      rw [allocFrame_run_error hc] at hrun
      injection hrun with h1 h2
      subst h2
      exact h.withCell_calls _
    | ok q =>
      rw [allocFrame_run_ok hc] at hrun
      cases hrun
  · cases hc : (m.cellAt a).frames.allocFrames count align with
    | error g =>
      rw [allocFrames_run_error hc] at hrun
      injection hrun with h1 h2
      subst h2
      exact h.withCell_calls _
    | ok q =>
      rw [allocFrames_run_ok hc] at hrun
      cases hrun

/-- A frame that another client holds and gives back leaves the frames it holds. -/
theorem free (h : m.LiveSpace M a r held root nodes) {ppn : PhysPage} (hp : ppn ∈ held)
    (hrun : (freeFrame a ppn).run m = .ok () m') :
    m'.LiveSpace M a r (held.erase ppn) root nodes := by
  have hf := h.accounts.free_of_mem (List.mem_append_left _ hp)
  rw [freeFrame_run_ok hf] at hrun
  injection hrun with h1 h2
  subst h2
  have hacc := (h.accounts.free hf).2
  rw [List.erase_append_left _ hp] at hacc
  exact h.withFrames hacc rfl _

end LiveSpace

/-- The states that the machine goes through from making the space `r` of mode `M` over the
allocator `a`: maps on the space that return, with a mapping or a refusal, and the requests and
returns of the allocator's other clients, who give back only frames they hold. `held` is what the
other clients hold. -/
inductive SpaceRun (M : Mode) (a : AllocatorRef) (r : SpaceRef) : Machine → List PhysPage → Prop
  /-- The space is made over the allocator, whose other clients hold `held`. -/
  | new {m m' : Machine} {held : List PhysPage} : a.index < m.allocators.size →
      Accounts (m.cellAt a).frames held → (m.cellAt a).frames.stop.toNat ≤ 2 ^ 44 →
      (newSpace M a).run m = .ok (.ok r) m' → SpaceRun M a r m' held
  /-- A mapping on the space returns. -/
  | map {m m' : Machine} {held : List PhysPage} {vpn : VirtPage} {ppn : PhysPage} {n : UInt64}
      {flags : Flags} {res : Except Fault Unit} : SpaceRun M a r m held →
      (Machine.map r vpn ppn n flags).run m = .ok res m' → SpaceRun M a r m' held
  /-- Another client is handed a frame. -/
  | allocFrame {m m' : Machine} {held : List PhysPage} {p : PhysPage} : SpaceRun M a r m held →
      (Machine.allocFrame a).run m = .ok (.ok p) m' → SpaceRun M a r m' (held ++ [p])
  /-- Another client is handed a run of frames. -/
  | allocFrames {m m' : Machine} {held : List PhysPage} {count align p : UInt64} :
      SpaceRun M a r m held → (Machine.allocFrames a count align).run m = .ok (.ok p) m' →
      SpaceRun M a r m' (held ++ frameRun p count.toNat)
  /-- A request of another client is refused. -/
  | refused {m m' : Machine} {held : List PhysPage} {count align : UInt64} {f : Fault} :
      SpaceRun M a r m held → ((Machine.allocFrame a).run m = .ok (.error f) m' ∨
        (Machine.allocFrames a count align).run m = .ok (.error f) m') → SpaceRun M a r m' held
  /-- Another client gives back a frame that it holds. -/
  | free {m m' : Machine} {held : List PhysPage} {ppn : PhysPage} : SpaceRun M a r m held →
      ppn ∈ held → (freeFrame a ppn).run m = .ok () m' → SpaceRun M a r m' (held.erase ppn)

/-- Every state that the machine goes through keeps the space live. -/
theorem SpaceRun.live (hM : M.Sound) {m : Machine} (h : SpaceRun M a r m held) :
    ∃ root nodes, m.LiveSpace M a r held root nodes := by
  induction h with
  | new hlt hacc hstop hrun =>
    obtain ⟨root, hl⟩ := LiveSpace.new hM hlt hacc hstop hrun
    exact ⟨root, [], hl⟩
  | @map m _ _ vpn ppn n flags _ _ hrun ih =>
    obtain ⟨root, nodes, hl⟩ := ih
    have := map_spec hM vpn ppn n flags m
      ⟨nodes, hl, Mode.Grows.refl M m.memory (root :: nodes)⟩
    rw [hrun] at this
    obtain ⟨nodes', hl', -⟩ := this
    exact ⟨root, nodes', hl'⟩
  | allocFrame _ hrun ih =>
    obtain ⟨root, nodes, hl⟩ := ih
    exact ⟨root, nodes, hl.allocFrame hrun⟩
  | allocFrames _ hrun ih =>
    obtain ⟨root, nodes, hl⟩ := ih
    exact ⟨root, nodes, hl.allocFrames hrun⟩
  | refused _ hrun ih =>
    obtain ⟨root, nodes, hl⟩ := ih
    exact ⟨root, nodes, hl.refused hrun⟩
  | free _ hp hrun ih =>
    obtain ⟨root, nodes, hl⟩ := ih
    exact ⟨root, nodes, hl.free hp hrun⟩

/-- The count of frames that a live space keeps is the number of frames it holds. -/
theorem LiveSpace.toNat_ownedFrames {root : TableNode} {nodes : List TableNode} {m : Machine}
    (h : m.LiveSpace M a r held root nodes) :
    (m.spaceAt r).ownedFrames.toNat = (m.spaceAt r).releaseOrder.length := by
  apply AddressSpace.toNat_ownedFrames
  have hlen := h.accounts.length_eq
  have hfit := ((m.cellAt a).frames.watermark - (m.cellAt a).frames.start).toNat_lt
  rw [List.length_append] at hlen
  simp only [UInt64.size] at hfit ⊢
  omega

/-! ## Releasing a space -/

section Release

variable {m : Machine}

/-- Frames that the accounts list first are taken back one by one, each call logged. -/
theorem freeFrames_run (hlt : a.index < m.allocators.size) (ps : List PhysPage) :
    ∀ {rest : List PhysPage} (c : AllocatorCell), Accounts c.frames (ps ++ rest) →
    ∃ fr, Accounts fr rest ∧ fr.stop = c.frames.stop ∧
      (ps.forM (freeFrame a)).run (m.withCell a c) =
        .ok () (m.withCell a ⟨fr, c.calls ++ (ps.map AllocatorCall.free).toArray⟩) := by
  induction ps with
  | nil =>
    intro rest c hacc
    exact ⟨c.frames, hacc, rfl, by simp⟩
  | cons p ps ih =>
    intro rest c hacc
    have hf := hacc.free_of_mem (List.mem_cons_self ..)
    have hacc' := (hacc.free hf).2
    rw [List.cons_append, List.erase_cons_head] at hacc'
    obtain ⟨fr, hfr, hstop, hrun⟩ :=
      ih ⟨{ c.frames with recycled := p :: c.frames.recycled }, c.calls.push (.free p)⟩ hacc'
    refine ⟨fr, hfr, hstop, ?_⟩
    have hc : ((m.withCell a c).cellAt a).frames.free p =
        .ok { c.frames with recycled := p :: c.frames.recycled } := by
      rw [cellAt_withCell_self m hlt]
      exact hf
    rw [List.forM_eq_forM, List.forM_cons, bind_run_ok (freeFrame_run_ok hc),
      cellAt_withCell_self m hlt, withCell_withCell, ← List.forM_eq_forM, hrun]
    simp

/-- Releasing a box of the allocator whose frames the accounts list first gives them back, lowest
first. -/
theorem releaseBox_run (hlt : a.index < m.allocators.size) {b : FrameBox} (hb : b.alloc = a)
    {rest : List PhysPage} (c : AllocatorCell) (hacc : Accounts c.frames (b.frameList ++ rest)) :
    ∃ fr, Accounts fr rest ∧ fr.stop = c.frames.stop ∧
      (releaseBox b).run (m.withCell a c) = .ok { b with frames := 0 }
        (m.withCell a ⟨fr, c.calls ++ (b.frameList.map AllocatorCall.free).toArray⟩) := by
  obtain ⟨fr, hfr, hstop, hrun⟩ := freeFrames_run hlt b.frameList c hacc
  refine ⟨fr, hfr, hstop, ?_⟩
  have hloop : (List.range b.frames.toNat).forM (fun i => freeFrame b.alloc (b.ppn + i.toUInt64)) =
      b.frameList.forM (freeFrame a) := by
    simp only [FrameBox.frameList, frameRun, List.forM_eq_forM, List.forM_map, hb]
  rw [releaseBox, hloop, bind_run_ok hrun]
  rfl

/-- Releasing boxes of the allocator in turn gives back their frames in turn. -/
theorem releaseBoxes_run (hlt : a.index < m.allocators.size) (bs : List FrameBox)
    (hbs : ∀ b ∈ bs, b.alloc = a) :
    ∀ {rest : List PhysPage} (c : AllocatorCell),
    Accounts c.frames (bs.flatMap FrameBox.frameList ++ rest) →
    ∃ fr, Accounts fr rest ∧ fr.stop = c.frames.stop ∧
      (bs.forM fun b => do let _ ← releaseBox b).run (m.withCell a c) = .ok ()
        (m.withCell a ⟨fr, c.calls ++
          ((bs.flatMap FrameBox.frameList).map AllocatorCall.free).toArray⟩) := by
  induction bs with
  | nil =>
    intro rest c hacc
    exact ⟨c.frames, hacc, rfl, by simp⟩
  | cons b bs ih =>
    intro rest c hacc
    rw [List.flatMap_cons, List.append_assoc] at hacc
    obtain ⟨fr₁, hfr₁, hstop₁, hrun₁⟩ :=
      releaseBox_run hlt (hbs b (List.mem_cons_self ..)) c hacc
    obtain ⟨fr, hfr, hstop, hrun⟩ :=
      ih (fun b hb => hbs b (List.mem_cons_of_mem _ hb))
        ⟨fr₁, c.calls ++ (b.frameList.map AllocatorCall.free).toArray⟩ hfr₁
    refine ⟨fr, hfr, hstop.trans hstop₁, ?_⟩
    rw [List.forM_eq_forM, List.forM_cons, bind_assoc, bind_run_ok hrun₁, pure_bind,
      ← List.forM_eq_forM, hrun]
    simp [List.flatMap_cons]

/-- Releasing a space whose boxes come from the allocator `a`, when the accounts of `a` list the
frames of the space besides those that its other clients hold, gives back each frame of the space
once, in the order of `AddressSpace.releaseOrder`, and leaves the space without a root. -/
theorem releaseSpace_run_of_accounts (hlt : a.index < m.allocators.size)
    (hsp : r.index < m.spaces.size) {rb : FrameBox} (hroot : (m.spaceAt r).root = some rb)
    (hrb : rb.alloc = a) (hbs : ∀ b ∈ (m.spaceAt r).tables.toList, b.alloc = a)
    (hacc : Accounts (m.cellAt a).frames (held ++ (m.spaceAt r).releaseOrder)) :
    ∃ m', (releaseSpace r).run m = .ok () m' ∧
      (m'.cellAt a).calls =
        (m.cellAt a).calls ++ ((m.spaceAt r).releaseOrder.map AllocatorCall.free).toArray ∧
      Accounts (m'.cellAt a).frames held ∧ (m'.spaceAt r).root = none := by
  have hbs' : ∀ b ∈ (m.spaceAt r).tables.reverse.toList, b.alloc = a := by
    intro b hb
    rw [Array.toList_reverse, List.mem_reverse] at hb
    exact hbs b hb
  -- the tables first, most recent first, then the root
  have hacc' : Accounts (m.cellAt a).frames
      ((m.spaceAt r).tables.reverse.toList.flatMap FrameBox.frameList ++
        (rb.frameList ++ held)) := by
    refine hacc.of_perm ?_
    rw [AddressSpace.releaseOrder, hroot, Array.toList_reverse]
    refine List.perm_append_comm.trans ?_
    rw [List.append_assoc]
  obtain ⟨fr₁, hfr₁, -, hrun₁⟩ := releaseBoxes_run hlt _ hbs' (m.cellAt a) hacc'
  rw [withCell_cellAt m hlt] at hrun₁
  let c₁ : AllocatorCell := ⟨fr₁, (m.cellAt a).calls ++
    (((m.spaceAt r).tables.reverse.toList.flatMap FrameBox.frameList).map
      AllocatorCall.free).toArray⟩
  let s₁ : AddressSpace := { m.spaceAt r with tables := #[] }
  have hlt' : a.index < (m.withSpace r s₁).allocators.size := by simpa using hlt
  obtain ⟨fr₂, hfr₂, -, hrun₂⟩ := releaseBox_run hlt' hrb c₁ hfr₁
  let c₂ : AllocatorCell := ⟨fr₂, c₁.calls ++ (rb.frameList.map AllocatorCall.free).toArray⟩
  refine ⟨((m.withSpace r s₁).withCell a c₂).withSpace r { s₁ with root := none },
    ?_, ?_, ?_, ?_⟩
  · rw [releaseSpace, bind_run_ok (space_run m r)]
    split
    · rename_i hnone
      rw [hroot] at hnone
      cases hnone
    · rename_i b hb
      rw [hroot] at hb
      cases hb
      rw [bind_run_ok hrun₁, bind_run_ok (setSpace_run _ _ _), ← withCell_withSpace,
        bind_run_ok hrun₂, setSpace_run]
  · rw [cellAt_withSpace, cellAt_withCell_self _ hlt']
    simp [c₂, c₁, AddressSpace.releaseOrder, hroot, Array.toList_reverse]
  · rw [cellAt_withSpace, cellAt_withCell_self _ hlt']
    exact hfr₂
  · simp [hsp]

/-- Releasing a live space gives back each of its frames once, in the order of
`AddressSpace.releaseOrder`, and leaves the space without a root. -/
theorem LiveSpace.release {root : TableNode} {nodes : List TableNode}
    (h : m.LiveSpace M a r held root nodes) :
    ∃ m', (releaseSpace r).run m = .ok () m' ∧
      (m'.cellAt a).calls =
        (m.cellAt a).calls ++ ((m.spaceAt r).releaseOrder.map AllocatorCall.free).toArray ∧
      Accounts (m'.cellAt a).frames held ∧ (m'.spaceAt r).root = none := by
  refine releaseSpace_run_of_accounts h.lt_allocators h.lt_spaces h.root_box
    (h.tree.shaped root (List.mem_cons_self ..)).2.1 (fun b hb => ?_) h.accounts
  rw [h.tables] at hb
  obtain ⟨T, hT, rfl⟩ := List.mem_map.1 hb
  exact (h.tree.shaped T (List.mem_cons_of_mem _ hT)).2.1

/-- A released space stays as it is when released again. -/
theorem releaseSpace_run_of_released (hr : (m.spaceAt r).root = none) :
    (releaseSpace r).run m = .ok () m := by
  rw [releaseSpace, bind_run_ok (space_run m r), hr]
  rfl

/-- Asking a released space for its root halts. -/
theorem rootPage_run_of_released (hr : (m.spaceAt r).root = none) :
    (rootPage r).run m = .error (Halt.silent .spaceReleased)
      { m with log := m.log.printText (Halt.silent .spaceReleased).text } := by
  rw [rootPage, bind_run_ok (space_run m r), hr]
  exact halt_run _ _

end Release

/-! ## What a space owns -/

/-- What releasing the space `r` took the machine from `m` to `m'`: each frame that the space
held went back to the allocator `a` by one call, in the order of `AddressSpace.releaseOrder`; the
allocator has handed out just the frames `held` of its other clients; the space keeps no frame,
a second release gives nothing back, and asking for the root of the space, looking up a page in
it or mapping in it halts. -/
structure Released (a : AllocatorRef) (r : SpaceRef) (held : List PhysPage) (m m' : Machine) :
    Prop where
  calls : (m'.cellAt a).calls =
    (m.cellAt a).calls ++ ((m.spaceAt r).releaseOrder.map AllocatorCall.free).toArray
  accounts : Accounts (m'.cellAt a).frames held
  owned : (m'.spaceAt r).ownedFrames = 0
  release_again : (releaseSpace r).run m' = .ok () m'
  rootPage_halts : ∃ m'', (rootPage r).run m' = .error (Halt.silent .spaceReleased) m''
  findEntry_halts : ∀ vpn,
    ∃ m'', (findEntry r vpn).run m' = .error (Halt.silent .spaceReleased) m''
  map_halts : ∀ vpn ppn n flags,
    ∃ m'', (map r vpn ppn n flags).run m' = .error (Halt.silent .spaceReleased) m''

/-- What the space `r` of mode `M`, whose root table is in the box `root`, owns in `m` from the
allocator `a`, whose other clients hold the frames `held`. -/
structure OwnsFrames (M : Mode) (a : AllocatorRef) (r : SpaceRef) (held : List PhysPage)
    (m : Machine) (root : FrameBox) : Prop where
  root_eq : (m.spaceAt r).root = some root
  /-- The root is a table of the top level from the allocator, aligned to its count of frames. -/
  root_frames : M.tableFrames M.topLevel = .ok root.frames
  root_aligned : root.ppn.toNat % root.frames.toNat = 0
  root_alloc : root.alloc = a
  /-- A pointer that a walk from the root reaches leads to the first frame of a box listed below
  the root, which holds a table of the level below; no other listed box holds that frame. -/
  pointer_box : ∀ t L i c, M.PointsDown m.memory root.ppn t L i c →
    ∃ k : Fin (m.spaceAt r).tables.size, (m.spaceAt r).tables[k].ppn = c ∧
      M.tableFrames (L - 1) = .ok (m.spaceAt r).tables[k].frames ∧
      ∀ k' : Fin (m.spaceAt r).tables.size, c ∈ (m.spaceAt r).tables[k'].frameList → k' = k
  /-- Distinct pointers lead to distinct boxes. -/
  pointer_unique : ∀ t L i t' L' i' c, M.PointsDown m.memory root.ppn t L i c →
    M.PointsDown m.memory root.ppn t' L' i' c → t = t' ∧ L = L' ∧ i = i'
  /-- Every listed box is pointed to. -/
  box_pointed : ∀ k : Fin (m.spaceAt r).tables.size,
    ∃ t L i, M.PointsDown m.memory root.ppn t L i (m.spaceAt r).tables[k].ppn
  /-- The count of frames that the space keeps is the number of frames it holds, and these with
  the frames of the other clients are just the frames that the allocator has handed out. -/
  owned : (m.spaceAt r).ownedFrames.toNat = (m.spaceAt r).releaseOrder.length
  accounts : Accounts (m.cellAt a).frames (held ++ (m.spaceAt r).releaseOrder)
  release : ∃ m', (releaseSpace r).run m = .ok () m' ∧ Released a r held m m'

namespace LiveSpace

variable {m : Machine} {root : TableNode} {nodes : List TableNode}

/-- Box `k` that the space lists below its root is the box of node `k + 1` of its tree. -/
theorem getElem_tables (h : m.LiveSpace M a r held root nodes) {k : Nat}
    (hk : k < (m.spaceAt r).tables.size) :
    ∃ hk' : k + 1 < (root :: nodes).length,
      (m.spaceAt r).tables[k] = (root :: nodes)[k + 1].box := by
  have hlen : (m.spaceAt r).tables.size = nodes.length := by
    rw [← Array.length_toList, h.tables, List.length_map]
  refine ⟨by simp only [List.length_cons]; omega, ?_⟩
  simp only [← Array.getElem_toList, h.tables, List.getElem_map, List.getElem_cons_succ]

/-- A pointer that a walk reaches leads to the first frame of one listed box, which holds a table
of the level below. -/
theorem pointsDown_table (hM : M.Sound) (h : m.LiveSpace M a r held root nodes) {t c : PhysPage}
    {L : Level} {i : UInt64} (hp : M.PointsDown m.memory root.box.ppn t L i c) :
    ∃ k : Fin (m.spaceAt r).tables.size, (m.spaceAt r).tables[k].ppn = c ∧
      M.tableFrames (L - 1) = .ok (m.spaceAt r).tables[k].frames ∧
      ∀ k' : Fin (m.spaceAt r).tables.size,
        c ∈ (m.spaceAt r).tables[k'].frameList → k' = k := by
  obtain ⟨T, hT, rfl, rfl, U, hU, rfl, hUl, -⟩ := h.tree.node_of_pointsDown h.root_level hp
  have hUshape := h.tree.shaped U hU
  -- the node pointed to lies below the root, so the space lists its box
  have hUn : U ∈ nodes := by
    rcases List.mem_cons.1 hU with rfl | hU'
    · have := (h.tree.shaped T hT).1
      rw [h.root_level] at hUl
      omega
    · exact hU'
  have hmem : U.box ∈ (m.spaceAt r).tables.toList := by
    rw [h.tables]
    exact List.mem_map_of_mem hUn
  obtain ⟨k, hk, hkU⟩ := List.mem_iff_getElem.1 hmem
  rw [Array.length_toList] at hk
  rw [Array.getElem_toList] at hkU
  refine ⟨⟨k, hk⟩, by rw [Fin.getElem_fin, hkU], ?_, ?_⟩
  · rw [Fin.getElem_fin, hkU, ← hM.tableFrames_of_shaped hUshape, Level.eq_sub_one_of_succ hUl]
  · intro k' hk'
    obtain ⟨hj1, hj⟩ := h.getElem_tables k'.2
    obtain ⟨hk1, hkk⟩ := h.getElem_tables hk
    have hin : U.box.ppn ∈ (root :: nodes)[k + 1].box.frameList := by
      rw [← hkk, hkU]
      exact FrameBox.ppn_mem_frameList hUshape.frames_pos
    rw [Fin.getElem_fin, hj] at hk'
    have := h.tree.index_eq_of_mem_frameList hj1 hk1 hk' hin
    exact Fin.ext (by simp only at this ⊢; omega)

/-- Every box that the space lists below its root is pointed to by an entry that a walk
reaches. -/
theorem box_pointed (h : m.LiveSpace M a r held root nodes) (k : Fin (m.spaceAt r).tables.size) :
    ∃ t L i, M.PointsDown m.memory root.box.ppn t L i (m.spaceAt r).tables[k].ppn := by
  obtain ⟨hk1, hk⟩ := h.getElem_tables k.2
  rw [Fin.getElem_fin, hk, List.getElem_cons_succ]
  exact h.tree.pointsDown_of_node h.root_level h.below_root (List.getElem_mem _)

/-- Releasing a live space is a release as `Released` describes it. -/
theorem released (h : m.LiveSpace M a r held root nodes) :
    ∃ m', (releaseSpace r).run m = .ok () m' ∧ Released a r held m m' := by
  obtain ⟨m', hrun, hcalls, hacc, hr⟩ := h.release
  refine ⟨m', hrun, hcalls, hacc, ?_, releaseSpace_run_of_released hr,
    ⟨_, rootPage_run_of_released hr⟩, fun vpn => ?_, fun vpn ppn n flags => ?_⟩
  · rw [AddressSpace.ownedFrames, hr]
  · exact ⟨_, by rw [findEntry, bind_run_error (rootPage_run_of_released hr)]⟩
  · exact ⟨_, by rw [map, bind_run_error (rootPage_run_of_released hr)]⟩

/-- A live space owns its frames as `OwnsFrames` describes. -/
theorem ownsFrames (hM : M.Sound) (h : m.LiveSpace M a r held root nodes) :
    m.OwnsFrames M a r held root.box := by
  have hroot := h.tree.shaped root (List.mem_cons_self ..)
  refine ⟨h.root_box, ?_, ?_, hroot.2.1, fun t L i c hp => h.pointsDown_table hM hp,
    fun t L i t' L' i' c hp hp' => h.tree.pointsDown_unique h.root_level hp hp', h.box_pointed,
    h.toNat_ownedFrames, h.accounts, h.released⟩
  · rw [← h.root_level]
    exact hM.tableFrames_of_shaped hroot
  · rw [hroot.2.2.1]
    exact hroot.2.2.2.1

end LiveSpace

end Machine

end Paging
