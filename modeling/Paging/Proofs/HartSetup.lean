import Paging.Proofs.FreshSpace
import Paging.Proofs.IdentifierAccounts
import Paging.Machine.Hart
/-!
# Setting up a hart

`Machine.setupHart` probes how wide the hart's address-space identifiers are, makes a space of
mode `sv39` over a frame allocator, maps the pages of RAM onto themselves, takes an identifier
from a new allocator and selects the space in the supervisor's register. Setting up is all or
nothing (`setupHart_all_or_nothing`): it never halts, and

* when it returns an error, the frames that the allocator has handed out are those it had handed
  out before, and it has as many free frames as before: the space made on the way is given back;
* when it returns a hart, the hart runs with identifier 0, the first that a new allocator hands
  out, so that running out of identifiers cannot happen; its register value selects its space and
  is the value read back after writing it (`HartReady`). The space maps the pages of RAM, from
  the page of its start up to the page where its end rounds up to, each onto itself with the flags
  of the map of RAM, and no other page; pages above the limit of the mode look up as the page
  below it with the same low bits. Releasing the hart makes all identifiers available again and
  gives back every frame of the space; releasing it again changes nothing.
-/

namespace Paging

open FrameAllocator Run

namespace IdAllocator

/-- Handing out an identifier keeps the largest one. -/
theorem max_of_alloc {a a' : IdAllocator} {id : UInt16} (h : a.alloc = .ok (id, a')) :
    a'.max = a.max := by
  rcases alloc_eq_ok h with ⟨_, _, rfl⟩ | ⟨_, _, _, _, rfl⟩ | ⟨_, _, _, _, rfl⟩ <;> rfl

/-- A new allocator hands out 0 first, whatever its largest identifier. -/
theorem alloc_new (max : UInt16) : ∃ a', (IdAllocator.new max).alloc = .ok (0, a') := by
  by_cases h : (0 : UInt16) = max
  · subst h
    exact ⟨_, rfl⟩
  · simp [IdAllocator.new, alloc, h]

/-- The first identifier of a new allocator, given back, makes every identifier available. -/
theorem free_first {max id : UInt16} {a' : IdAllocator}
    (ha : (IdAllocator.new max).alloc = .ok (id, a')) :
    ∃ a'', a'.free id = .ok a'' ∧ a''.available = max.toNat + 1 := by
  have h₁ := (Accounts.new max).alloc ha
  have hfree := h₁.free_of_mem (List.mem_append_right _ (List.mem_singleton_self id))
  obtain ⟨-, h₂⟩ := h₁.free hfree
  refine ⟨_, hfree, ?_⟩
  have hlen := h₂.available_add_length
  have hmax : a'.max = max := max_of_alloc ha
  simp only [List.nil_append, List.erase_cons_head, List.length_nil, Nat.add_zero] at hlen
  rw [hlen, hmax]

end IdAllocator

namespace Machine

variable {M : Mode} {a : AllocatorRef} {r : SpaceRef} {held : List PhysPage} {m : Machine}

/-! ## The steps of setting up and releasing -/

/-- The hart `r`, as the machine code reads it. -/
def hartAt (m : Machine) (r : HartRef) : Hart :=
  m.harts[r.index]?.getD default

/-- The identifier allocator `r`, as the machine code reads it. -/
def idsAt (m : Machine) (r : IdsRef) : IdAllocator :=
  m.idAllocators[r.index]?.getD (IdAllocator.new 0)

theorem probeMaxAsid_run (m : Machine) :
    probeMaxAsid.run m =
      .ok m.registers.probeMaxAsid.1 { m with registers := m.registers.probeMaxAsid.2 } :=
  rfl

theorem hart_run (m : Machine) (r : HartRef) : (hart r).run m = .ok (m.hartAt r) m :=
  rfl

theorem ids_run (m : Machine) (r : IdsRef) : (ids r).run m = .ok (m.idsAt r) m :=
  rfl

/-- An identifier that its allocator takes back is recycled. -/
theorem freeId_run_ok {r : IdsRef} {id : UInt16} {a' : IdAllocator}
    (h : (m.idsAt r).free id = .ok a') :
    (freeId r id).run m = .ok () { m with idAllocators := m.idAllocators.set! r.index a' } := by
  rw [freeId, bind_run_ok (ids_run m r), h]
  rfl

theorem rootPage_run {b : FrameBox} (hroot : (m.spaceAt r).root = some b) :
    (rootPage r).run m = .ok b.ppn m := by
  rw [rootPage, bind_run_ok (space_run m r), hroot]
  rfl

/-- Selecting a space with a root writes the register value of its root and reads the register
back. -/
theorem activateSupervisor_run {b : FrameBox} (hroot : (m.spaceAt r).root = some b)
    (hmode : (m.spaceAt r).mode = M) (id : UInt16) :
    (activateSupervisor r id).run m =
      .ok (m.registers.satp.write (M.satpBits id b.ppn)).read
        { m with registers := { m.registers with
            satp := m.registers.satp.write (M.satpBits id b.ppn) } } := by
  rw [activateSupervisor, bind_run_ok (space_run m r), bind_run_ok (rootPage_run hroot), hmode]
  rfl

/-- Making a space never halts. The allocator refuses the root, and its frames stay as they
were, or the space is made fresh; what `Untouched` names is left alone either way. -/
theorem newSpace_outcome (hM : M.Sound) (hlt : a.index < m.allocators.size)
    (hacc : Accounts (m.cellAt a).frames held) (hstop : (m.cellAt a).frames.stop.toNat ≤ 2 ^ 44) :
    ∃ res m', (newSpace M a).run m = .ok res m' ∧ Untouched m m' ∧
      (∀ f, res = .error f → (m'.cellAt a).frames = (m.cellAt a).frames) ∧
      (∀ r, res = .ok r → ∃ root, m'.FreshSpace M a r held root) := by
  obtain ⟨tf, htf, -⟩ := hM.tableFrames_eq (L := M.topLevel) (Nat.le_refl _)
  have hkeep := Untouched.keeps_newSpace M a m (Untouched.refl m)
  cases ha : (m.cellAt a).frames.allocFrames tf tf with
  | error f =>
    have hrun : (newSpace M a).run m = .ok (.error f) (m.withCell a
        ⟨(m.cellAt a).frames, (m.cellAt a).calls.push (.allocFrames tf tf (.error f))⟩) := by
      rw [newSpace, bind_run_ok (newTable_run_error htf ha)]
      rfl
    rw [hrun] at hkeep
    exact ⟨_, _, hrun, hkeep, fun _ _ => by rw [cellAt_withCell_self m hlt],
      fun _ h => (by cases h)⟩
  | ok p =>
    obtain ⟨ppn, fr⟩ := p
    have hrun := newSpace_run_ok hM htf ha
    dsimp only at hrun
    rw [hrun] at hkeep
    refine ⟨_, _, hrun, hkeep, fun _ h => (by cases h), fun r h => ?_⟩
    cases h
    exact FreshSpace.new hM hlt hacc hstop hrun

/-- Releasing a hart that runs with a live space, and with an identifier that its allocator
takes back, gives back the identifier and every frame of the space, and leaves the hart without
a space. -/
theorem releaseHart_run {hr : HartRef} {s : SpaceRef} {ids' : IdAllocator}
    (hhr : hr.index < m.harts.size) (hs : (m.hartAt hr).space = some s)
    (hids : (m.hartAt hr).ids.index < m.idAllocators.size)
    (hfree : (m.idsAt (m.hartAt hr).ids).free (m.hartAt hr).asid = .ok ids')
    {root : TableNode} {nodes : List TableNode} (hl : m.LiveSpace M a s held root nodes) :
    ∃ m', (releaseHart hr).run m = .ok () m' ∧ m'.idsAt (m.hartAt hr).ids = ids' ∧
      Accounts (m'.cellAt a).frames held ∧ m'.ranges = m.ranges ∧
      (m'.hartAt hr).space = none := by
  let m₁ : Machine :=
    { m with idAllocators := m.idAllocators.set! (m.hartAt hr).ids.index ids' }
  have hl₁ : m₁.LiveSpace M a s held root nodes := hl.congr rfl rfl rfl rfl
  obtain ⟨m₂, hrun₂, -, hacc₂, -⟩ := hl₁.release
  have hkeep := Untouched.keeps_releaseSpace s m₁ (Untouched.refl m₁)
  rw [hrun₂] at hkeep
  obtain ⟨hranges, -, hidAlloc, hharts⟩ := hkeep
  refine ⟨{ m₂ with harts := m₂.harts.set! hr.index { m.hartAt hr with space := none } },
    ?_, ?_, hacc₂, hranges, ?_⟩
  · rw [releaseHart, bind_run_ok (hart_run m hr)]
    dsimp only
    rw [hs]
    dsimp only
    rw [bind_run_ok (freeId_run_ok hfree), bind_run_ok hrun₂]
    rfl
  · simp [idsAt, hidAlloc, m₁, hids]
  · simp [hartAt, hharts, m₁, hhr]

/-- A hart without a space stays as it is when released. -/
theorem releaseHart_run_of_none {hr : HartRef} (h : (m.hartAt hr).space = none) :
    (releaseHart hr).run m = .ok () m := by
  rw [releaseHart, bind_run_ok (hart_run m hr), h]
  rfl

/-- The leaf that the map of the pages from `first` onto themselves writes for the page `p` at a
level of `sv39` maps `p` onto itself. -/
theorem identity_leaf (first p : UInt64) {L : Level} (hL : L.toNat ≤ Mode.sv39.topLevel.toNat)
    (hp : p.toNat < 2 ^ 44) (flags : Flags) :
    (Entry.mapping (first + (Word.alignDown p (Word.pow2 (Mode.sv39.levelShift L)) - first))
        flags).ppn + p % Word.pow2 (Mode.sv39.levelShift L) = p ∧
      (Entry.mapping (first + (Word.alignDown p (Word.pow2 (Mode.sv39.levelShift L)) - first))
        flags).flags = flags ||| .valid := by
  have hk : Mode.sv39.levelShift L < 64 := by
    have : Mode.sv39.topLevel.toNat = 2 := rfl
    show L.toNat * 9 < 64
    omega
  have hdown := Word.toNat_alignDown_pow2 p hk
  have hcancel : first + (Word.alignDown p (Word.pow2 (Mode.sv39.levelShift L)) - first) =
      Word.alignDown p (Word.pow2 (Mode.sv39.levelShift L)) := by
    rw [UInt64.add_comm, UInt64.sub_add_cancel]
  have hle := (alignDown_bounds (x := p.toNat) (Nat.two_pow_pos (Mode.sv39.levelShift L))).1
  refine ⟨?_, Entry.flags_mapping _ _⟩
  rw [hcancel, Entry.mapping, Entry.ppn_ofPPN _ (by omega)]
  apply UInt64.toNat_inj.1
  rw [UInt64.toNat_add, UInt64.toNat_mod, hdown, Word.toNat_pow2 hk, Nat.div_add_mod]
  exact Nat.mod_eq_of_lt p.toNat_lt

/-- A count of pages from `first` that stays below the word size reaches `last`. -/
theorem toNat_add_sub_of_lt {first last : UInt64}
    (h : first.toNat + (last - first).toNat < 2 ^ 64) :
    first.toNat + (last - first).toNat = last.toNat := by
  have := first.toNat_lt
  have := last.toNat_lt
  rw [UInt64.toNat_sub] at h ⊢
  omega

/-! ## A hart ready to run -/

/-- What setting up hart `hartId` over the RAM `[memStart, memEnd)` from the machine `m` left in
`m'` when it returned the hart `hr`, over the allocator `a` whose other clients hold `held`: the
hart's space is `s`, with the root table `root`. -/
structure HartReady (m m' : Machine) (a : AllocatorRef) (held : List PhysPage) (hartId : UInt64)
    (memStart memEnd : PhysAddr) (hr : HartRef) (s : SpaceRef) (root : TableNode) : Prop where
  /-- The hart has its number, its space and the identifier 0, from an allocator of the probed
  width. -/
  hart : (m'.hartAt hr).id = hartId ∧ (m'.hartAt hr).space = some s ∧ (m'.hartAt hr).asid = 0
  ids_max : (m'.idsAt (m'.hartAt hr).ids).max = m.registers.probeMaxAsid.1
  /-- The space is live, of mode `sv39` over the allocator, which has handed out its frames and
  those of the other clients. -/
  live : ∃ nodes, m'.LiveSpace .sv39 a s held root nodes
  /-- The hart's register value selects the space with identifier 0: it is what the probed
  register reads after that value is written to it. -/
  satp : (m'.hartAt hr).satp =
    (m.registers.probeMaxAsid.2.satp.write (Mode.sv39.satpBits 0 root.box.ppn)).read
  /-- A page of RAM has a leaf of some level that maps it onto itself, with the flags of the map
  of RAM. -/
  maps_ram : ∀ p : VirtPage, p < Mode.sv39.vpnLimit →
    Mode.sv39.ppnOf memStart ≤ p → p < Mode.sv39.ppnOf (Word.alignUp memEnd 4096) →
    ∃ e L, (findEntry s p).run m' = .ok (.ok (e, L)) m' ∧
      e.ppn + p % Word.pow2 (Mode.sv39.levelShift L) = p ∧ e.flags = identityFlags ||| .valid
  /-- A lookup of any other page below the limit of the mode meets an invalid entry. -/
  maps_nothing_else : ∀ p : VirtPage, p < Mode.sv39.vpnLimit →
    ¬ (Mode.sv39.ppnOf memStart ≤ p ∧ p < Mode.sv39.ppnOf (Word.alignUp memEnd 4096)) →
    (findEntry s p).run m' = .ok (.error .invalidEntry) m'
  /-- A page above the limit looks up as the page below it with the same low bits. -/
  aliases : ∀ p : VirtPage, (findEntry s p).run m' = (findEntry s (p % Mode.sv39.vpnLimit)).run m'
  /-- Releasing the hart makes every identifier available and gives back every frame of the
  space, and releasing it again changes nothing. -/
  release : ∃ m'', (releaseHart hr).run m' = .ok () m'' ∧
    (m''.idsAt (m'.hartAt hr).ids).available = m.registers.probeMaxAsid.1.toNat + 1 ∧
    Accounts (m''.cellAt a).frames held ∧
    (m''.cellAt a).frames.freeFrames = (m.cellAt a).frames.freeFrames ∧
    (releaseHart hr).run m'' = .ok () m''

/-- Once RAM is mapped onto itself in the fresh space `s` of `m₃`, the hart that setting up adds
with the first identifier of a new allocator is ready, whatever else the last steps change. -/
theorem hartReady_of_mapped {hartId : UInt64} {memStart memEnd : PhysAddr} {s : SpaceRef}
    {root : TableNode} {nodes : List TableNode} {m₃ m₅ : Machine} {asids : IdAllocator}
    (hacc : Accounts (m.cellAt a).frames held) (hl : m₃.LiveSpace .sv39 a s held root nodes)
    (hU : Untouched { m with registers := m.registers.probeMaxAsid.2 } m₃)
    (hcheck : Mode.sv39.checkRange (Mode.sv39.ppnOf memStart) (Mode.sv39.ppnOf memStart)
      (Mode.sv39.ppnOf (Word.alignUp memEnd 4096) - Mode.sv39.ppnOf memStart) = .ok ())
    (hmaps : MapsExactly .sv39 m₃ s (Mode.sv39.ppnOf memStart) (Mode.sv39.ppnOf memStart)
      (Mode.sv39.ppnOf (Word.alignUp memEnd 4096) - Mode.sv39.ppnOf memStart) identityFlags)
    (halloc : (IdAllocator.new m.registers.probeMaxAsid.1).alloc = .ok (0, asids))
    (hspaces : m₅.spaces = m₃.spaces) (hmem : m₅.memory = m₃.memory)
    (hallocs : m₅.allocators = m₃.allocators)
    (hids : m₅.idAllocators = m₃.idAllocators.push asids)
    (hharts : m₅.harts = m₃.harts.push
      { id := hartId, ids := ⟨m₃.idAllocators.size⟩, space := some s, asid := 0,
        satp := (m₃.registers.satp.write (Mode.sv39.satpBits 0 root.box.ppn)).read }) :
    HartReady m m₅ a held hartId memStart memEnd ⟨m₃.harts.size⟩ s root := by
  have hl₅ : m₅.LiveSpace .sv39 a s held root nodes :=
    hl.congr hspaces hmem (by rw [hallocs]) (by unfold cellAt; rw [hallocs])
  have hmaps₅ := hmaps.congr Mode.sound_sv39 hl hl₅ hmem
  have hhart : m₅.hartAt ⟨m₃.harts.size⟩ =
      { id := hartId, ids := ⟨m₃.idAllocators.size⟩, space := some s, asid := 0,
        satp := (m₃.registers.satp.write (Mode.sv39.satpBits 0 root.box.ppn)).read } := by
    simp [hartAt, hharts]
  have hidsAt : m₅.idsAt ⟨m₃.idAllocators.size⟩ = asids := by
    simp [idsAt, hids]
  have hranges : m₅.ranges = m.ranges :=
    (show m₅.ranges = m₃.ranges by simp only [ranges, hallocs]).trans hU.1
  -- The pages of RAM are the count of pages from the first: it ends at the last one.
  have hrange : ∀ p : VirtPage, (Mode.sv39.ppnOf memStart ≤ p ∧
      p < Mode.sv39.ppnOf (Word.alignUp memEnd 4096)) ↔
      ((Mode.sv39.ppnOf memStart).toNat ≤ p.toNat ∧ p.toNat < (Mode.sv39.ppnOf memStart).toNat +
        (Mode.sv39.ppnOf (Word.alignUp memEnd 4096) - Mode.sv39.ppnOf memStart).toNat) := by
    have hsum := ((Mode.sound_sv39.checkRange_eq_ok _ _ _).1 hcheck).1
    have hts : Mode.sv39.tableShift Mode.sv39.topLevel = 27 := by decide
    rw [hts] at hsum
    intro p
    rw [toNat_add_sub_of_lt (by omega), UInt64.le_iff_toNat_le, UInt64.lt_iff_toNat_lt]
  have hvl : Mode.sv39.vpnLimit.toNat = 2 ^ 27 := by decide
  refine
    { hart := by simp [hhart]
      ids_max := by rw [hhart, hidsAt, IdAllocator.max_of_alloc halloc]; rfl
      live := ⟨nodes, hl₅⟩
      satp := by rw [hhart, hU.2.1]
      maps_ram := fun p hp h₁ h₂ => ?_
      maps_nothing_else := fun p hp h => (hmaps₅ p hp).2 (by rwa [← hrange p])
      aliases := fun p => (hl₅.findEntry_mod Mode.sound_sv39 p).symm
      release := ?_ }
  · obtain ⟨L, hL, hrun⟩ := (hmaps₅ p hp).1 ((hrange p).1 ⟨h₁, h₂⟩)
    have hp44 : p.toNat < 2 ^ 44 := by
      have := UInt64.lt_iff_toNat_lt.1 hp
      omega
    exact ⟨_, L, hrun, identity_leaf _ p hL hp44 identityFlags⟩
  · obtain ⟨asids', hfree, havail⟩ := IdAllocator.free_first halloc
    obtain ⟨m', hrun, hids', hacc', hranges', hnone⟩ :=
      releaseHart_run (show (⟨m₃.harts.size⟩ : HartRef).index < m₅.harts.size by simp [hharts])
        (by rw [hhart])
        (by simp [hhart, hids]) (by rw [hhart, hidsAt]; exact hfree) hl₅
    have hcell := range_cellAt_of_ranges (hranges'.trans hranges) a
    refine ⟨m', hrun, by rw [hids']; exact havail, hacc', ?_, releaseHart_run_of_none hnone⟩
    exact Accounts.freeFrames_eq hacc hacc' (congrArg Prod.fst hcell) (congrArg Prod.snd hcell)

/-- Setting up a hart is all or nothing. It never halts. When it returns an error, the frames of
the allocator are as they were; when it returns a hart, the hart is ready to run over a space that
maps RAM onto itself and nothing else. -/
theorem setupHart_all_or_nothing (hartId : UInt64) (memStart memEnd : PhysAddr)
    (hlt : a.index < m.allocators.size) (hacc : Accounts (m.cellAt a).frames held)
    (hstop : (m.cellAt a).frames.stop.toNat ≤ 2 ^ 44) :
    ∃ res m', (setupHart hartId a memStart memEnd).run m = .ok res m' ∧
      (∀ f, res = .error f → Accounts (m'.cellAt a).frames held ∧
        (m'.cellAt a).frames.freeFrames = (m.cellAt a).frames.freeFrames) ∧
      (∀ hr, res = .ok hr → ∃ s root, HartReady m m' a held hartId memStart memEnd hr s root) := by
  let m₁ : Machine := { m with registers := m.registers.probeMaxAsid.2 }
  obtain ⟨res₂, m₂, hrun₂, hU₂, herr₂, hok₂⟩ :=
    newSpace_outcome (m := m₁) Mode.sound_sv39 hlt hacc hstop
  rw [setupHart, bind_run_ok (probeMaxAsid_run m)]
  dsimp only
  rw [bind_run_ok hrun₂]
  cases res₂ with
  | error f =>
    -- The allocator refused the root: nothing was taken.
    refine ⟨_, _, rfl, fun _ _ => ?_, fun _ h => (by cases h)⟩
    rw [herr₂ f rfl]
    exact ⟨hacc, rfl⟩
  | ok s =>
    obtain ⟨root, hf⟩ := hok₂ s rfl
    dsimp only
    rw [show Mode.sv39.pageSize Level.leaf = .ok 4096 from rfl, ofHalting_ok, pure_bind]
    obtain ⟨res₃, m₃, hrun₃, ⟨nodes, hl₃⟩, hU₃, -, hok₃⟩ :=
      hf.map_spec Mode.sound_sv39 (Mode.sv39.ppnOf memStart) (Mode.sv39.ppnOf memStart)
        (Mode.sv39.ppnOf (Word.alignUp memEnd 4096) - Mode.sv39.ppnOf memStart)
        (by decide : identityFlags.hasAny .rwx = true)
    rw [bind_run_ok hrun₃]
    cases res₃ with
    | error f =>
      -- The map was refused or ran out of frames: the space is given back.
      obtain ⟨m₄, hrun₄, -, hacc₄, -⟩ := hl₃.release
      have hU₄ := Untouched.keeps_releaseSpace s m₃ (Untouched.refl m₃)
      rw [hrun₄] at hU₄
      have hcell := (hU₂.trans (hU₃.trans hU₄)).range_cellAt a
      refine ⟨_, _, by dsimp only; rw [bind_run_ok hrun₄]; rfl, fun _ _ => ⟨hacc₄, ?_⟩,
        fun _ h => (by cases h)⟩
      exact Accounts.freeFrames_eq hacc hacc₄ (congrArg Prod.fst hcell) (congrArg Prod.snd hcell)
    | ok u =>
      obtain ⟨hcheck, hmaps⟩ := hok₃ rfl
      obtain ⟨asids, halloc⟩ := IdAllocator.alloc_new m.registers.probeMaxAsid.1
      dsimp only
      rw [halloc]
      dsimp only
      rw [bind_run_ok (activateSupervisor_run hl₃.root_box hl₃.mode 0)]
      refine ⟨_, _, rfl, fun _ h => (by cases h), fun hr h => ?_⟩
      cases h
      show ∃ s root, HartReady m _ a held hartId memStart memEnd ⟨m₃.harts.size⟩ s root
      exact ⟨s, root, hartReady_of_mapped hacc hl₃ (hU₂.trans hU₃) hcheck hmaps halloc
        rfl rfl rfl rfl rfl⟩

/-- Hart 0 over 2 MiB of RAM, with tables from an allocator of 256 frames that has handed out
none: setting it up ends without a halt. -/
theorem setupHart_over_small_ram :
    ∃ res m', (setupHart 0 ⟨0⟩ 0x80000000 0x80200000).run
      { allocators := #[{ frames := FrameAllocator.new 0x80400 0x80500 }] } = .ok res m' := by
  obtain ⟨res, m', hrun, -⟩ := setupHart_all_or_nothing 0 0x80000000 0x80200000
    (m := { allocators := #[{ frames := FrameAllocator.new 0x80400 0x80500 }] }) (a := ⟨0⟩)
    (by decide) (Accounts.new _ _) (by decide)
  exact ⟨res, m', hrun⟩

end Machine

end Paging
