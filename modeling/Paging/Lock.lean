/-!
# Spin locks

A spin lock is free or held. Taking it succeeds only when it is free; a hart that asks for a
held lock spins until another hart lets it go, so with a single hart that request never ends
(`Spinlock.acquire` gives no lock back).
-/

namespace Paging

/-- A lock taken by spinning. -/
structure Spinlock where
  held : Bool := false
  deriving DecidableEq, Repr

namespace Spinlock

/-- Takes the lock if it is free; the answer says whether it was. -/
def tryAcquire (l : Spinlock) : Bool × Spinlock :=
  (!l.held, ⟨true⟩)

/-- Takes the lock; a held lock would spin forever, and gives none. -/
def acquire (l : Spinlock) : Option Spinlock :=
  if l.held then none else some ⟨true⟩

/-- Lets the lock go. -/
def release (_ : Spinlock) : Spinlock :=
  ⟨false⟩

end Spinlock

end Paging
