import Paging.Proofs.RunSpec
import Paging.Proofs.FrameAccounts
import Paging.Proofs.SegmentPlan
/-!
# The checks of a mapping request

Before a mapping request reads or writes a table or asks for a frame, it passes two checks, in
this order, whatever the mode of the space:

* a request without read, write or execute permission halts, and the halt changes nothing but
  the log, where it prints its note and banner (`map_run_of_noPermission`);
* a request whose pages run past `vpnLimit`, or whose frames run past `ppnLimit`, is refused and
  changes nothing (`map_run_of_outside`). The limits are compared in exact integers
  (`Mode.checkRange_eq`): `checkRange` subtracts `n` from a limit only once it knows that `n`
  does not exceed it, so no wrap of the word lets a request through or turns one away
  (`Word.runsPast_eq`).

Past the checks, every fault that a request returns is one of the frame allocator
(`returns_mapSegments`), so a request returns the refusal of its range exactly when it runs past
the limits (`map_checks_request_first`).
-/

namespace Paging

/-! ## Faults that come from the frame allocator -/

namespace Run

/-- Whatever `x` returns satisfies `Q`; halting is not returning. -/
def Returns {α : Type} (Q : α → Prop) (x : Run α) : Prop :=
  Spec (fun _ => True) x (fun a _ => Q a) (fun _ => True)

namespace Returns

variable {α β : Type} {Q : α → Prop} {R : β → Prop}

theorem pure {a : α} (h : Q a) : Returns Q (Pure.pure a) :=
  Spec.pure fun _ _ => h

theorem bind {x : Run α} {f : α → Run β} (hx : Returns Q x) (hf : ∀ a, Q a → Returns R (f a)) :
    Returns R (x >>= f) :=
  fun m _ => ends_bind (hx m trivial) fun a m' ha => hf a ha m' trivial

/-- Every value satisfies the property that says nothing. -/
theorem any (x : Run α) : Returns (fun _ => True) x := by
  intro m _
  cases x.run m <;> trivial

theorem halt (e : Halt) : Returns Q (Run.halt e : Run α) := by
  intro m _
  rw [halt_run]
  trivial

theorem ofHalting (x : Except Halt α) : Returns (fun a => x = .ok a) (Run.ofHalting x) := by
  cases x with
  | ok a => exact pure rfl
  | error e => exact halt e

end Returns

end Run

namespace Machine

open Run

/-- A result that is a value, or a fault of the frame allocator. -/
def FramesFaultOnly {α : Type} (res : Except Fault α) : Prop :=
  ∀ f, res = .error f → f.component = .frames

theorem framesFaultOnly_ok {α : Type} (a : α) : FramesFaultOnly (Except.ok a : Except Fault α) :=
  fun _ h => by cases h

/-- A fault passed on under another type of value is still the allocator's. -/
theorem FramesFaultOnly.error {α β : Type} {f : Fault}
    (h : FramesFaultOnly (Except.error f : Except Fault α)) :
    FramesFaultOnly (Except.error f : Except Fault β) :=
  fun _ hg => by cases hg; exact h f rfl

theorem returns_allocFrames (a : AllocatorRef) (count align : UInt64) :
    Returns FramesFaultOnly (allocFrames a count align) := by
  intro m _
  cases ha : (m.cellAt a).frames.allocFrames count align with
  | ok p =>
    rw [allocFrames_run_ok ha]
    exact framesFaultOnly_ok _
  | error f =>
    rw [allocFrames_run_error ha]
    rintro g ⟨⟩
    exact FrameAllocator.component_of_allocFrames ha

theorem returns_newContiguousBox (a : AllocatorRef) (count align : UInt64) :
    Returns FramesFaultOnly (newContiguousBox a count align) :=
  Returns.bind (returns_allocFrames a count align) fun res hres => Returns.pure fun f hf => by
    cases res with
    | ok _ => cases hf
    | error g =>
      cases hf
      exact hres _ rfl

theorem returns_newTable (M : Mode) (a : AllocatorRef) (L : Level) :
    Returns FramesFaultOnly (newTable M a L) := by
  refine Returns.bind (Returns.any _) fun frames _ =>
    Returns.bind (returns_newContiguousBox a frames frames) fun res hres => ?_
  split
  · exact Returns.pure hres.error
  · exact Returns.bind (Returns.any _) fun _ _ =>
      Returns.bind (Returns.any _) fun _ _ => Returns.pure (framesFaultOnly_ok _)

variable (r : SpaceRef)

theorem returns_descend (M : Mode) (a : AllocatorRef) (vpn : VirtPage) :
    ∀ (levels : List Level) (table : PhysPage),
      Returns FramesFaultOnly (descend r M a vpn levels table)
  | [], _ => Returns.pure (framesFaultOnly_ok _)
  | L :: rest, table => by
    rw [descend]
    refine Returns.bind (Returns.any _) fun slot _ => Returns.bind (Returns.any _) fun e _ => ?_
    split
    · refine Returns.bind (returns_newTable M a (L - 1)) fun res hres => ?_
      split
      · exact Returns.pure hres.error
      · exact Returns.bind (Returns.any _) fun _ _ =>
          Returns.bind (Returns.any _) fun _ _ => returns_descend M a vpn rest _
    · split
      · exact Returns.halt _
      · exact returns_descend M a vpn rest _

theorem returns_tableFor (L : Level) (vpn : VirtPage) :
    Returns FramesFaultOnly (tableFor r L vpn) := by
  refine Returns.bind (Returns.any _) fun s _ => Returns.bind (Returns.any _) fun levels _ =>
    Returns.bind (returns_descend r _ _ _ _ _) fun res hres => ?_
  split
  · exact Returns.pure hres.error
  · exact Returns.bind (Returns.any _) fun _ _ => Returns.pure (framesFaultOnly_ok _)

theorem returns_mapRun (L : Level) (start stop vpn : VirtPage) (ppn : PhysPage) (flags : Flags) :
    Returns FramesFaultOnly (mapRun r L start stop vpn ppn flags) := by
  refine Returns.bind (returns_tableFor r L start) fun res hres => ?_
  split
  · exact Returns.pure hres.error
  · exact Returns.bind (Returns.any _) fun _ _ => Returns.bind (Returns.any _) fun _ _ =>
      Returns.bind (Returns.any _) fun _ _ => Returns.pure (framesFaultOnly_ok _)

theorem returns_mapPieces (M : Mode) (seg : Segment) (vpn : VirtPage) (ppn : PhysPage)
    (flags : Flags) (fuel : Nat) (start : VirtPage) :
    Returns FramesFaultOnly (mapPieces r M seg vpn ppn flags fuel start) := by
  induction fuel generalizing start with
  | zero => exact Returns.pure (framesFaultOnly_ok _)
  | succ fuel ih =>
    rw [mapPieces]
    split
    · -- a piece up to the next block of the level above or the end, then the rest
      dsimp only
      split
      · refine Returns.bind (Returns.any _) fun next _ => Returns.bind (Returns.any _)
          fun stop _ => Returns.bind (returns_mapRun r seg.level start stop vpn ppn flags)
          fun res hres => ?_
        split
        · exact Returns.pure hres
        · exact ih stop
      · refine Returns.bind (Returns.any _) fun stop _ =>
          Returns.bind (returns_mapRun r seg.level start stop vpn ppn flags) fun res hres => ?_
        split
        · exact Returns.pure hres
        · exact ih stop
    · exact Returns.pure (framesFaultOnly_ok _)

/-- Every fault that mapping a plan's segments returns is one of the frame allocator. -/
theorem returns_mapSegments (M : Mode) (vpn : VirtPage) (ppn : PhysPage) (flags : Flags) :
    ∀ segs : List Segment, Returns FramesFaultOnly (mapSegments r M vpn ppn flags segs)
  | [] => Returns.pure (framesFaultOnly_ok _)
  | seg :: rest => by
    rw [mapSegments]
    refine Returns.bind (returns_mapPieces r M seg vpn ppn flags _ _) fun res hres => ?_
    split
    · exact Returns.pure hres
    · exact returns_mapSegments M vpn ppn flags rest

/-! ## The two checks -/

section Checks

variable {r} {m : Machine} {b : FrameBox} (hlive : (m.spaceAt r).root = some b)
  {vpn : VirtPage} {ppn : PhysPage} {n : UInt64} {flags : Flags}
include hlive

/-- A request without read, write or execute permission halts with its note, and changes
nothing but the log. -/
theorem map_run_of_noPermission (hf : flags.hasAny .rwx = false) :
    let h := Halt.withNote ("[vmm] refusing to map vpn 0x" ++ Numeral.hex vpn.toNat ++
      " with flags " ++ flags.render ++ "\n") .noPermissions
    (map r vpn ppn n flags).run m = .error h { m with log := m.log.printText h.text } := by
  rw [map, rootPage, bind_assoc, bind_run_ok (space_run m r), hlive]
  dsimp only
  rw [pure_bind, bind_run_ok (space_run m r), if_pos (by simp [hf])]
  exact bind_run_error (halt_run _ m)

/-- A request with a permission is refused, and changes nothing, when `checkRange` refuses it. -/
theorem map_run_of_outside (hf : flags.hasAny .rwx = true) {f : Fault}
    (hc : (m.spaceAt r).mode.checkRange vpn ppn n = .error f) :
    (map r vpn ppn n flags).run m = .ok (.error f) m := by
  rw [map, rootPage, bind_assoc, bind_run_ok (space_run m r), hlive]
  dsimp only
  rw [pure_bind, bind_run_ok (space_run m r), if_neg (by simp [hf]), hc]
  rfl

/-- A request with a permission that `checkRange` accepts maps the segments of its plan. -/
theorem map_run_of_inside (hf : flags.hasAny .rwx = true)
    (hc : (m.spaceAt r).mode.checkRange vpn ppn n = .ok ()) :
    (map r vpn ppn n flags).run m =
      (ofHalting ((m.spaceAt r).mode.segments vpn ppn n) >>=
        mapSegments r (m.spaceAt r).mode vpn ppn flags).run m := by
  rw [map, rootPage, bind_assoc, bind_run_ok (space_run m r), hlive]
  dsimp only
  rw [pure_bind, bind_run_ok (space_run m r), if_neg (by simp [hf]), hc]

/-- A request of no pages that `checkRange` accepts, in a sound mode, maps nothing and changes
nothing. -/
theorem map_run_of_empty (hM : (m.spaceAt r).mode.Sound) (hf : flags.hasAny .rwx = true)
    (hc : (m.spaceAt r).mode.checkRange vpn ppn 0 = .ok ()) :
    (map r vpn ppn 0 flags).run m = .ok (.ok ()) m := by
  obtain ⟨segs, hs, hplan⟩ := hM.segments_plan hc
  rw [map_run_of_inside hlive hf hc, hs, hplan.eq_nil]
  rfl

end Checks

/-- A mapping request on a space that has its root, in any mode, checks its permissions first:
without read, write or execute it halts before it reads or writes a table or asks for a frame,
changing only the log. With a permission, `checkRange` refuses exactly the requests whose pages
run past `vpnLimit` or whose frames run past `ppnLimit` as exact integers; the request then
returns that refusal and leaves the machine as it was, and a request that returns any other way
was within the limits. -/
theorem map_checks_request_first {m : Machine} {r : SpaceRef} {b : FrameBox}
    (hlive : (m.spaceAt r).root = some b) (vpn : VirtPage) (ppn : PhysPage) (n : UInt64)
    (flags : Flags) :
    let M := (m.spaceAt r).mode
    let outside := M.vpnLimit.toNat < vpn.toNat + n.toNat ∨ M.ppnLimit.toNat < ppn.toNat + n.toNat
    let h := Halt.withNote ("[vmm] refusing to map vpn 0x" ++ Numeral.hex vpn.toNat ++
      " with flags " ++ flags.render ++ "\n") .noPermissions
    (flags.hasAny .rwx = false →
      (map r vpn ppn n flags).run m = .error h { m with log := m.log.printText h.text }) ∧
    M.checkRange vpn ppn n = (if outside then .error .rangeOutOfBounds else .ok ()) ∧
    (flags.hasAny .rwx = true →
      (outside → (map r vpn ppn n flags).run m = .ok (.error .rangeOutOfBounds) m) ∧
      ∀ res m', (map r vpn ppn n flags).run m = .ok res m' →
        (res = .error .rangeOutOfBounds ↔ outside)) := by
  intro M outside h
  have hc := M.checkRange_eq vpn ppn n
  refine ⟨map_run_of_noPermission hlive, hc, fun hf => ⟨fun ho => ?refused, ?returns⟩⟩
  case refused => exact map_run_of_outside hlive hf (by rw [hc, if_pos ho])
  case returns =>
    intro res m' hrun
    by_cases ho : outside
    · rw [map_run_of_outside hlive hf (by rw [hc, if_pos ho])] at hrun
      cases hrun
      exact iff_of_true rfl ho
    · -- within the limits, a returned fault comes from the allocator
      rw [map_run_of_inside hlive hf (by rw [hc, if_neg ho])] at hrun
      have hret := Returns.bind (Returns.ofHalting (M.segments vpn ppn n)) fun segs _ =>
        returns_mapSegments r M vpn ppn flags segs
      have hres : FramesFaultOnly res := by
        have := hret m trivial
        rw [hrun] at this
        exact this
      refine iff_of_false (fun he => ?_) ho
      have := hres _ he
      cases this

/-- Two pages from the last page below the limit of `sv39` run past it: a space with its root
refuses them and changes nothing. -/
theorem map_checks_request_at_sv39_limit :
    let m : Machine :=
      { spaces := #[{ mode := .sv39, alloc := ⟨0⟩, root := some ⟨0x80000, 1, ⟨0⟩⟩ }] }
    (m.spaceAt ⟨0⟩).root = some ⟨0x80000, 1, ⟨0⟩⟩ ∧
    let M := (m.spaceAt ⟨0⟩).mode
    let outside := M.vpnLimit.toNat < (0x7ffffff : VirtPage).toNat + (2 : UInt64).toNat ∨
      M.ppnLimit.toNat < (0x80000 : PhysPage).toNat + (2 : UInt64).toNat
    let h := Halt.withNote ("[vmm] refusing to map vpn 0x" ++
      Numeral.hex (0x7ffffff : VirtPage).toNat ++ " with flags " ++ Flags.read.render ++ "\n")
      .noPermissions
    (Flags.read.hasAny .rwx = false →
      (map ⟨0⟩ 0x7ffffff 0x80000 2 .read).run m = .error h { m with log := m.log.printText h.text }) ∧
    M.checkRange 0x7ffffff 0x80000 2 = (if outside then .error .rangeOutOfBounds else .ok ()) ∧
    (Flags.read.hasAny .rwx = true →
      (outside → (map ⟨0⟩ 0x7ffffff 0x80000 2 .read).run m = .ok (.error .rangeOutOfBounds) m) ∧
      ∀ res m', (map ⟨0⟩ 0x7ffffff 0x80000 2 .read).run m = .ok res m' →
        (res = .error .rangeOutOfBounds ↔ outside)) :=
  ⟨rfl, map_checks_request_first rfl 0x7ffffff 0x80000 2 .read⟩

end Machine

end Paging
