import Paging.Proofs.RunSpec
import Paging.Proofs.TableTree
/-!
# Live address spaces

A space is live while it has its root. The proofs then see its tables as a tree of tables
(`Mode.Tree`): the root is the node of the top level and block `0`, and the tables below it are
the nodes in the order the space made them. `Machine.LiveSpace` ties that tree to the machine:
the space's mode and allocator, its root and tables, the memory the tree lives in, and the
accounts of the allocator, which has handed out exactly the frames that its other clients hold
and the frames of the space, all of them frames that an entry can name.

Making a table below a node takes three steps, and each keeps the space live:

* the allocator hands out the frames, which the space does not own yet (`LiveSpace.allocTable`);
* clearing them changes no entry of the tree (`LiveSpace.fill`), since frames handed out apart
  from the space's lie apart from its tables (`LiveSpace.apart_of_held`);
* pointing an invalid entry of a node to the new table and adding it to the space moves the
  frames to the space and grows the tree by one node (`LiveSpace.link`).

A halt and a refused request change nothing that the invariant reads (`LiveSpace.congr`).
-/

namespace Paging

open FrameAllocator

/-- The frames of a box, lowest first. -/
def FrameBox.frameList (b : FrameBox) : List PhysPage :=
  frameRun b.ppn b.frames.toNat

/-- The frames that a space holds, in the order its release gives them back: the tables below
the root, the most recent first and each from its lowest frame, then the root. A space without a
root holds none. -/
def AddressSpace.releaseOrder (s : AddressSpace) : List PhysPage :=
  match s.root with
  | none => []
  | some root => s.tables.toList.reverse.flatMap FrameBox.frameList ++ root.frameList

/-- Boxes whose frames are told apart by no frame lie apart. -/
theorem FrameBox.apart_of_not_mem {b c : FrameBox} (hb : 0 < b.frames.toNat)
    (hc : 0 < c.frames.toNat) (hbs : b.ppn.toNat + b.frames.toNat ≤ UInt64.size)
    (hcs : c.ppn.toNat + c.frames.toNat ≤ UInt64.size)
    (h : ∀ p ∈ b.frameList, p ∉ c.frameList) : b.Apart c := by
  by_contra hne
  simp only [FrameBox.Apart, not_or, Nat.not_le] at hne
  -- the later of the two first frames lies in both boxes
  by_cases hle : b.ppn ≤ c.ppn
  · have hle' := UInt64.le_iff_toNat_le.1 hle
    refine h c.ppn ((mem_frameRun hbs).2 ⟨hle, by omega⟩)
      ((mem_frameRun hcs).2 ⟨?_, by omega⟩)
    exact UInt64.le_refl _
  · have hlt := UInt64.lt_iff_toNat_lt.1 (UInt64.not_le.1 hle)
    refine h b.ppn ((mem_frameRun hbs).2 ⟨UInt64.le_refl _, by omega⟩)
      ((mem_frameRun hcs).2 ⟨UInt64.le_iff_toNat_le.2 (by omega), by omega⟩)

namespace Machine

/-- The space `r` of `m` is live over the allocator `a`, whose other clients hold `held`: its
root is the node `root` and its tables below the root are `nodes`, in the order the space made
them. They form a tree of tables of the mode in memory, and the allocator has handed out exactly
the frames of the other clients and of the space, below the frames an entry can name. -/
structure LiveSpace (M : Mode) (a : AllocatorRef) (r : SpaceRef) (held : List PhysPage)
    (m : Machine) (root : TableNode) (nodes : List TableNode) : Prop where
  lt_spaces : r.index < m.spaces.size
  lt_allocators : a.index < m.allocators.size
  mode : (m.spaceAt r).mode = M
  alloc : (m.spaceAt r).alloc = a
  root_box : (m.spaceAt r).root = some root.box
  tables : (m.spaceAt r).tables.toList = nodes.map TableNode.box
  root_level : root.level = M.topLevel
  root_block : root.block = 0
  below_root : ∀ U ∈ nodes, U.level.toNat < M.topLevel.toNat
  tree : M.Tree m.memory a (root :: nodes)
  accounts : Accounts (m.cellAt a).frames (held ++ (m.spaceAt r).releaseOrder)
  stop_le : (m.cellAt a).frames.stop.toNat ≤ 2 ^ 44

namespace LiveSpace

variable {M : Mode} {a : AllocatorRef} {r : SpaceRef} {held : List PhysPage} {m : Machine}
  {root : TableNode} {nodes : List TableNode}

/-- The invariant reads the spaces, the memory and the allocator's frames, and nothing else. -/
theorem congr (h : m.LiveSpace M a r held root nodes) {m' : Machine} (hs : m'.spaces = m.spaces)
    (hmem : m'.memory = m.memory) (hsize : m'.allocators.size = m.allocators.size)
    (hc : (m'.cellAt a).frames = (m.cellAt a).frames) : m'.LiveSpace M a r held root nodes := by
  have hsp : ∀ r, m'.spaceAt r = m.spaceAt r := spaceAt_of_spaces m hs
  exact
    { lt_spaces := hs ▸ h.lt_spaces
      lt_allocators := hsize ▸ h.lt_allocators
      mode := hsp r ▸ h.mode
      alloc := hsp r ▸ h.alloc
      root_box := hsp r ▸ h.root_box
      tables := hsp r ▸ h.tables
      root_level := h.root_level
      root_block := h.root_block
      below_root := h.below_root
      tree := hmem ▸ h.tree
      accounts := hsp r ▸ hc ▸ h.accounts
      stop_le := hc ▸ h.stop_le }

/-- A halt appends to the log only. -/
theorem log (h : m.LiveSpace M a r held root nodes) (l : Logger) :
    ({ m with log := l } : Machine).LiveSpace M a r held root nodes :=
  h.congr rfl rfl rfl rfl

/-- A call logged by the allocator that leaves its frames keeps the space live. -/
theorem withCell_calls (h : m.LiveSpace M a r held root nodes) (calls : Array AllocatorCall) :
    (m.withCell a ⟨(m.cellAt a).frames, calls⟩).LiveSpace M a r held root nodes :=
  h.congr rfl rfl (size_allocators_withCell m a _)
    (by rw [cellAt_withCell_self m h.lt_allocators])

theorem releaseOrder_eq (h : m.LiveSpace M a r held root nodes) :
    (m.spaceAt r).releaseOrder =
      (nodes.map TableNode.box).reverse.flatMap FrameBox.frameList ++ root.box.frameList := by
  rw [AddressSpace.releaseOrder, h.root_box, h.tables]

/-- The frames of every table of the tree are frames of the space. -/
theorem frameList_subset (h : m.LiveSpace M a r held root nodes) {T : TableNode}
    (hT : T ∈ root :: nodes) : ∀ p ∈ T.box.frameList, p ∈ (m.spaceAt r).releaseOrder := by
  intro p hp
  rw [h.releaseOrder_eq]
  rcases List.mem_cons.1 hT with rfl | hT
  · exact List.mem_append_right _ hp
  · refine List.mem_append_left _ (List.mem_flatMap.2 ⟨T.box, ?_, hp⟩)
    exact List.mem_reverse.2 (List.mem_map_of_mem hT)

/-- A box of frames held apart from the space lies apart from every table of its tree. -/
theorem apart_of_held (h : m.LiveSpace M a r held root nodes) {b : FrameBox}
    (hb : 0 < b.frames.toNat) (hbs : b.ppn.toNat + b.frames.toNat ≤ UInt64.size)
    (hheld : ∀ p ∈ b.frameList, p ∈ held) : ∀ T ∈ root :: nodes, b.Apart T.box := by
  intro T hT
  have hshape := h.tree.shaped T hT
  refine FrameBox.apart_of_not_mem hb hshape.frames_pos hbs hshape.end_le_size
    fun p hp hpT => ?_
  have hnd := (List.nodup_append.1 h.accounts.nodup_held).2.2
  exact hnd p (hheld p hp) p (h.frameList_subset hT p hpT) rfl

/-- New accounts of the allocator, with the other clients holding `held'`, keep the space live
when the range of frames stays. -/
theorem withFrames (h : m.LiveSpace M a r held root nodes) {fr : FrameAllocator}
    {held' : List PhysPage} (hacc : Accounts fr (held' ++ (m.spaceAt r).releaseOrder))
    (hstop : fr.stop = (m.cellAt a).frames.stop) (calls : Array AllocatorCall) :
    (m.withCell a ⟨fr, calls⟩).LiveSpace M a r held' root nodes := by
  have hc : (m.withCell a ⟨fr, calls⟩).cellAt a = ⟨fr, calls⟩ :=
    cellAt_withCell_self m h.lt_allocators _
  exact
    { lt_spaces := h.lt_spaces
      lt_allocators := (size_allocators_withCell m a _).symm ▸ h.lt_allocators
      mode := h.mode
      alloc := h.alloc
      root_box := h.root_box
      tables := h.tables
      root_level := h.root_level
      root_block := h.root_block
      below_root := h.below_root
      tree := h.tree
      accounts := by rw [hc]; exact hacc
      stop_le := by rw [hc]; exact hstop ▸ h.stop_le }

/-- Frames handed out for a table are held apart from the space until the table joins it. -/
theorem allocTable (h : m.LiveSpace M a r held root nodes) {count align ppn : UInt64}
    {fr : FrameAllocator} (ha : (m.cellAt a).frames.allocFrames count align = .ok (ppn, fr))
    (calls : Array AllocatorCall) :
    (m.withCell a ⟨fr, calls⟩).LiveSpace M a r (held ++ frameRun ppn count.toNat) root
      nodes := by
  refine h.withFrames ((h.accounts.allocFrames ha).of_perm ?_) (allocFrames_range ha).2 calls
  rw [List.append_assoc, List.append_assoc]
  exact List.perm_append_comm.append_left held

/-- Clearing a box held apart from the space changes no entry of its tree. -/
theorem entryAt_fill (hM : M.Sound) (h : m.LiveSpace M a r held root nodes) {N : TableNode}
    (hN : M.Shaped a N) (hheld : ∀ p ∈ N.box.frameList, p ∈ held) :
    ∀ T ∈ root :: nodes, ∀ i : UInt64, i.toNat < 2 ^ M.indexWidth T.level →
      M.entryAt (m.memory.fill (M.physAddrOf N.box.ppn) (2 ^ M.indexWidth N.level * 8) 0)
        T.box.ppn i = M.entryAt m.memory T.box.ppn i := by
  intro T hT i hi
  exact hM.entryAt_fill_apart m.memory hN (h.tree.shaped T hT)
    (h.apart_of_held hN.frames_pos hN.end_le_size hheld T hT) hi

/-- Clearing a box held apart from the space keeps it live, and its tree as it was. -/
theorem fill (hM : M.Sound) (h : m.LiveSpace M a r held root nodes) {N : TableNode}
    (hN : M.Shaped a N) (hheld : ∀ p ∈ N.box.frameList, p ∈ held) :
    let mem := m.memory.fill (M.physAddrOf N.box.ppn) (2 ^ M.indexWidth N.level * 8) 0
    (m.withMemory mem).LiveSpace M a r held root nodes ∧
      M.Grows m.memory (root :: nodes) mem (root :: nodes) := by
  have he := h.entryAt_fill hM hN hheld
  exact ⟨{ h with tree := h.tree.of_entryAt_eq he },
    (Mode.Grows.refl M m.memory (root :: nodes)).of_entryAt_eq he⟩

/-- Pointing an invalid entry of a node to a table with no valid entry, held apart from the
space, and adding the table to the space keeps the space live: the table is the node that the
entry covers, and the tree grows by it. -/
theorem link (hM : M.Sound) {U : TableNode}
    (h : m.LiveSpace M a r (held ++ U.box.frameList) root nodes) {T : TableNode}
    (hT : T ∈ root :: nodes) {i : UInt64} (hi : i.toNat < 2 ^ M.indexWidth T.level)
    (hinv : (M.entryAt m.memory T.box.ppn i).valid = false) (hU : M.Shaped a U)
    (hlev : U.level.toNat + 1 = T.level.toNat) (hblock : U.block = M.childBlock T i.toNat)
    (hempty : ∀ j : UInt64, j.toNat < 2 ^ M.indexWidth U.level →
      (M.entryAt m.memory U.box.ppn j).valid = false) :
    let mem := m.memory.writeWord (slotAddr M T.box.ppn i) (Entry.child U.box.ppn).raw
    ((m.withMemory mem).withSpace r { m.spaceAt r with tables := (m.spaceAt r).tables.push U.box }
      ).LiveSpace M a r held root (nodes ++ [U]) ∧
      M.Grows m.memory (root :: nodes) mem (root :: (nodes ++ [U])) := by
  intro mem
  have hapart := h.apart_of_held hU.frames_pos hU.end_le_size
    fun p hp => List.mem_append_right held hp
  have htree := h.tree.link hM hT hi hinv hU hlev hblock hapart hempty
  have hs : ((m.withMemory mem).withSpace r
      { m.spaceAt r with tables := (m.spaceAt r).tables.push U.box }).spaceAt r =
      { m.spaceAt r with tables := (m.spaceAt r).tables.push U.box } :=
    spaceAt_withSpace_self _ h.lt_spaces _
  have hrelease : AddressSpace.releaseOrder
      { m.spaceAt r with tables := (m.spaceAt r).tables.push U.box } =
      U.box.frameList ++ (m.spaceAt r).releaseOrder := by
    simp only [AddressSpace.releaseOrder, h.root_box, Array.toList_push, List.reverse_append,
      List.reverse_singleton, List.singleton_append, List.flatMap_cons, List.append_assoc]
  refine ⟨?_, (Mode.Grows.writeWord hM (Mode.Grows.refl M _ _) h.tree hT hi hinv _).append U⟩
  exact
    { lt_spaces := by simpa using h.lt_spaces
      lt_allocators := h.lt_allocators
      mode := by rw [hs]; exact h.mode
      alloc := by rw [hs]; exact h.alloc
      root_box := by rw [hs]; exact h.root_box
      tables := by rw [hs]; simp [h.tables]
      root_level := h.root_level
      root_block := h.root_block
      below_root := by
        intro V hV
        rcases List.mem_append.1 hV with hV | hV
        · exact h.below_root V hV
        · rw [List.mem_singleton.1 hV]
          have := (h.tree.shaped T hT).1
          omega
      tree := htree
      accounts := by
        rw [cellAt_withSpace, cellAt_withMemory, hs, hrelease, ← List.append_assoc]
        exact h.accounts
      stop_le := h.stop_le }

/-- Writing a leaf into an invalid entry of the tree keeps the space live and its tree as it
was, with one more valid entry. -/
theorem leaf (hM : M.Sound) (h : m.LiveSpace M a r held root nodes) {T : TableNode}
    (hT : T ∈ root :: nodes) {i : UInt64} (hi : i.toNat < 2 ^ M.indexWidth T.level)
    (hinv : (M.entryAt m.memory T.box.ppn i).valid = false) {e : Entry} (he : e.isLeaf = true) :
    let mem := m.memory.writeWord (slotAddr M T.box.ppn i) e.raw
    (m.withMemory mem).LiveSpace M a r held root nodes ∧
      M.Grows m.memory (root :: nodes) mem (root :: nodes) :=
  ⟨{ h with tree := h.tree.leaf hM hT hi hinv he },
    Mode.Grows.writeWord hM (Mode.Grows.refl M _ _) h.tree hT hi hinv _⟩

end LiveSpace

end Machine

end Paging
