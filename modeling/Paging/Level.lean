import Paging.Halt
import Paging.Numeral
/-!
# Levels and ranges of levels

A level numbers the tables of a page-table tree: level 0 holds the smallest pages and each level
above maps blocks of the next size. A `LevelRange` is a walk through consecutive levels, rising
towards the root or falling towards the leaves; its final bound is walked or not (`closed`).

`LevelRange.next` takes one step. `LevelRange.toList` is everything that is left, and
`toList_next` says that a step takes the head of that list.
-/

namespace Paging

/-- The number of a page-table level; level 0 maps the smallest pages. -/
abbrev Level := UInt8

/-- The lowest level, where every walk of the tables ends. -/
def Level.leaf : Level := 0

/-- The levels still to walk between `low` and `high`: a rising walk goes up from `low`, a falling
walk goes down from `high`, and the bound it ends at is walked only when `closed` holds. -/
structure LevelRange where
  low : Level
  high : Level
  rising : Bool
  closed : Bool
  ordered : low ≤ high

namespace LevelRange

/-- The walk from `low` to `high` in the given direction; bounds in the wrong order stop the
hart. -/
def ofBounds (low high : Level) (rising closed : Bool) : Except Halt LevelRange :=
  if h : low ≤ high then
    .ok ⟨low, high, rising, closed, h⟩
  else
    .error (Halt.withNote ("[mm] invalid level range: " ++ Numeral.decimal low.toNat ++ " > " ++
      Numeral.decimal high.toNat ++ "\n") .reversedLevels)

/-- The levels `first, first + 1, …, last`, the last one only if `closed`. -/
def up (first last : Level) (closed : Bool) : Except Halt LevelRange :=
  ofBounds first last true closed

/-- The levels `first, first - 1, …, last`, the last one only if `closed`. -/
def down (first last : Level) (closed : Bool) : Except Halt LevelRange :=
  ofBounds last first false closed

/-- The number of levels still to walk. -/
def size (r : LevelRange) : Nat :=
  (r.high.toNat - r.low.toNat) + if r.closed then 1 else 0

theorem succ_le_of_ne {a b : Level} (h : a ≤ b) (hne : a ≠ b) : a + 1 ≤ b := by
  have h2 : a.toNat ≠ b.toNat := fun e => hne (UInt8.toNat_inj.mp e)
  rw [UInt8.le_iff_toNat_le] at h ⊢
  rw [UInt8.toNat_add]
  have := b.toNat_lt
  simp only [UInt8.reduceToNat]
  omega

theorem le_pred_of_ne {a b : Level} (h : a ≤ b) (hne : a ≠ b) : a ≤ b - 1 := by
  have h2 : a.toNat ≠ b.toNat := fun e => hne (UInt8.toNat_inj.mp e)
  rw [UInt8.le_iff_toNat_le] at h ⊢
  rw [UInt8.toNat_sub_of_le _ _ (by rw [UInt8.le_iff_toNat_le]; simp only [UInt8.reduceToNat]; omega)]
  simp only [UInt8.reduceToNat]
  omega

/-- One step of the walk: the next level and the walk after it, or `none` at the end. -/
def next (r : LevelRange) : Option (Level × LevelRange) :=
  if h : r.low = r.high then
    if r.closed then some (r.low, { r with closed := false }) else none
  else if r.rising then
    some (r.low, ⟨r.low + 1, r.high, r.rising, r.closed, succ_le_of_ne r.ordered h⟩)
  else
    some (r.high, ⟨r.low, r.high - 1, r.rising, r.closed, le_pred_of_ne r.ordered h⟩)

theorem size_next {r r' : LevelRange} {l : Level} (h : r.next = some (l, r')) :
    r'.size < r.size := by
  unfold next at h
  have hle := r.ordered
  rw [UInt8.le_iff_toNat_le] at hle
  split at h
  · rename_i heq
    split at h
    · cases h
      simp_all [size]
    · cases h
  · rename_i hne
    have h2 : r.low.toNat ≠ r.high.toNat := fun e => hne (UInt8.toNat_inj.mp e)
    split at h
    · cases h
      simp only [size, UInt8.toNat_add, UInt8.reduceToNat]
      have := r.high.toNat_lt
      split <;> omega
    · cases h
      simp only [size]
      rw [UInt8.toNat_sub_of_le _ _ (by rw [UInt8.le_iff_toNat_le]; simp only [UInt8.reduceToNat]; omega)]
      simp only [UInt8.reduceToNat]
      split <;> omega

/-- The levels left to walk, in walking order. -/
def toList (r : LevelRange) : List Level :=
  match h : r.next with
  | some (l, r') =>
    have := size_next h
    l :: r'.toList
  | none => []
termination_by r.size

theorem toList_next {r r' : LevelRange} {l : Level} (h : r.next = some (l, r')) :
    r.toList = l :: r'.toList := by
  rw [toList]
  split <;> simp_all

/-- One step of the walk that stays put at the end: the level walked, if there was one. -/
def step (r : LevelRange) : Option Level × LevelRange :=
  match r.next with
  | some (l, r') => (some l, r')
  | none => (none, r)

/-- `k` steps of the walk, and the walk after them. -/
def steps : Nat → LevelRange → List (Option Level) × LevelRange
  | 0, r => ([], r)
  | k + 1, r =>
    let (l, r') := r.step
    let (ls, r'') := steps k r'
    (l :: ls, r'')

end LevelRange

end Paging
