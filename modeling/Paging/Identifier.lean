import Paging.Halt
import Paging.Numeral
/-!
# Identifier allocation

Address-space and virtual-machine identifiers are handed out from `0` up to a maximum, the
maximum included, and given back onto a stack of recycled identifiers. The stack is used
first. Handing out the maximum marks the allocator exhausted; from then on only recycled
identifiers remain.

Giving back an identifier above the maximum, one never handed out, or one already free breaks
the allocator's contract and stops the hart.
-/

namespace Paging

/-- An allocator of identifiers `0 … max`. -/
structure IdAllocator where
  /-- The next identifier never handed out. -/
  next : UInt16 := 0
  /-- The largest identifier. -/
  max : UInt16
  /-- Whether the maximum has been handed out. -/
  exhausted : Bool := false
  /-- Identifiers given back, the most recent first. -/
  recycled : List UInt16 := []
  deriving DecidableEq, Repr

namespace IdAllocator

/-- The allocator of `0 … max` with nothing handed out. -/
def new (max : UInt16) : IdAllocator :=
  { max := max }

/-- Hands out an identifier: the most recently recycled one, else the next new one. -/
def alloc (a : IdAllocator) : Except Fault (UInt16 × IdAllocator) :=
  match a.recycled with
  | id :: rest => .ok (id, { a with recycled := rest })
  | [] =>
    if a.exhausted then .error .idsExhausted
    else if a.next = a.max then .ok (a.max, { a with exhausted := true })
    else .ok (a.next, { a with next := a.next + 1 })

/-- Takes back an identifier. -/
def free (a : IdAllocator) (id : UInt16) : Except Halt IdAllocator :=
  if id > a.max then
    .error (Halt.withNote ("[asid_alloc] id " ++ Numeral.decimal id.toNat ++ " exceeds max " ++
      Numeral.decimal a.max.toNat ++ "\n") .idAboveMax)
  else if !a.exhausted && id ≥ a.next then
    .error (Halt.withNote ("[asid_alloc] id " ++ Numeral.decimal id.toNat ++
      " has not been allocated\n") .idNotAllocated)
  else if a.recycled.contains id then
    .error (Halt.withNote ("[asid_alloc] id " ++ Numeral.decimal id.toNat ++ " is freed twice\n")
      .idAlreadyFreed)
  else
    .ok { a with recycled := id :: a.recycled }

/-- The number of identifiers that can still be handed out. -/
def available (a : IdAllocator) : Nat :=
  a.recycled.length + if a.exhausted then 0 else (a.max - a.next).toNat + 1

end IdAllocator

end Paging
