/-!
# Reading unsigned numbers

The command line reads an unsigned 64-bit number from text whose prefix picks the base: `0x`
for hexadecimal, `0o` for octal, `0b` for binary (each in either case, and followed by at least
one more character), a lone leading `0` for octal, and decimal otherwise. Underscores may
separate digits, and a prefix from the first digit. A text that is not such a number is a
syntax error; a number of 2^64 or more is out of range. Reading stops at the first fault, so a
text that overflows before it goes wrong is out of range.
-/

namespace Paging

/-- Why a text is not an unsigned number. -/
inductive NumberFault where
  /-- The text does not spell a number. -/
  | malformed
  /-- The number does not fit in 64 bits. -/
  | range
  deriving DecidableEq, Repr

/-- The words that report the fault. -/
def NumberFault.message : NumberFault → String
  | .malformed => "parse error"
  | .range => "value out of range"

namespace Unsigned

/-- The character in lower case, for letters of the Latin alphabet. -/
def lower (c : Char) : Char :=
  if 'A' ≤ c && c ≤ 'Z' then Char.ofNat (c.toNat + 32) else c

/-- The base that the text's prefix picks, and the digits after the prefix. -/
def baseOf (cs : List Char) : Nat × List Char :=
  match cs with
  | '0' :: p :: d :: rest =>
    if lower p = 'b' then (2, d :: rest)
    else if lower p = 'o' then (8, d :: rest)
    else if lower p = 'x' then (16, d :: rest)
    else (8, p :: d :: rest)
  | '0' :: rest => (8, rest)
  | _ => (10, cs)

/-- The value of a digit character in any base up to 36. -/
def digitValue (c : Char) : Option Nat :=
  if '0' ≤ c && c ≤ '9' then some (c.toNat - '0'.toNat)
  else if 'a' ≤ lower c && lower c ≤ 'z' then some ((lower c).toNat - 'a'.toNat + 10)
  else none

/-- The value of the digits in the base, with whether an underscore was seen. -/
def digits (base : Nat) : List Char → Nat → Bool → Except NumberFault (Nat × Bool)
  | [], n, seen => .ok (n, seen)
  | c :: rest, n, seen =>
    if c = '_' then digits base rest n true
    else
      match digitValue c with
      | none => .error .malformed
      | some d =>
        if d ≥ base then .error .malformed
        else
          let n := n * base + d
          if n ≥ 2 ^ 64 then .error .range else digits base rest n seen

/-- What a character of a number counts as, for the placing of underscores. -/
inductive Seen where
  | start
  | digit
  | underscore
  | other
  deriving DecidableEq

/-- Whether every underscore stands between two digits, or between the prefix and a digit. -/
def underscoresPlaced (cs : List Char) : Bool :=
  let (first, rest, hex) := match cs with
    | '0' :: p :: rest =>
      if lower p = 'b' || lower p = 'o' || lower p = 'x' then (Seen.digit, rest, lower p == 'x')
      else (Seen.start, cs, false)
    | _ => (Seen.start, cs, false)
  let final := rest.foldl (fun (acc : Option Seen) c =>
    match acc with
    | none => none
    | some seen =>
      if ('0' ≤ c && c ≤ '9') || (hex && 'a' ≤ lower c && lower c ≤ 'f') then some .digit
      else if c = '_' then (if seen = .digit then some .underscore else none)
      else if seen = .underscore then none
      else some .other) (some first)
  match final with
  | some .underscore => false
  | some _ => true
  | none => false

/-- Reads an unsigned 64-bit number. -/
def parse (s : String) : Except NumberFault UInt64 :=
  let cs := s.toList
  if cs.isEmpty then .error .malformed
  else
    let (base, ds) := baseOf cs
    match digits base ds 0 false with
    | .error f => .error f
    | .ok (n, seen) =>
      if seen && !underscoresPlaced cs then .error .malformed else .ok n.toUInt64

end Unsigned

end Paging
