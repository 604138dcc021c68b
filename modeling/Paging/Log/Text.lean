/-!
# Log bytes as text

Log output is bytes; shown as text, each well-formed UTF-8 sequence is its character and each
byte that starts none reads as U+FFFD, after which reading goes on at the next byte. A sequence
is well formed when it is the shortest encoding of a scalar value: no overlong forms, no
surrogates, nothing above U+10FFFF.
-/

namespace Paging

namespace Utf8

/-- Whether the byte continues a sequence. -/
def isContinuation (b : UInt8) : Bool :=
  0x80 ≤ b && b ≤ 0xBF

/-- The bits that a continuation byte carries. -/
def payload (b : UInt8) : Nat :=
  (b &&& 0x3F).toNat

/-- The character that a well-formed sequence starting with `b` encodes, and how many of the
bytes after `b` it takes. -/
def decodeHead (b : UInt8) (rest : List UInt8) : Option (Char × Nat) :=
  if b < 0x80 then some (Char.ofNat b.toNat, 0)
  else if 0xC2 ≤ b && b ≤ 0xDF then
    match rest with
    | c :: _ =>
      if isContinuation c then some (Char.ofNat ((b &&& 0x1F).toNat * 64 + payload c), 1)
      else none
    | [] => none
  else if 0xE0 ≤ b && b ≤ 0xEF then
    match rest with
    | c1 :: c2 :: _ =>
      let lo : UInt8 := if b = 0xE0 then 0xA0 else 0x80
      let hi : UInt8 := if b = 0xED then 0x9F else 0xBF
      if lo ≤ c1 && c1 ≤ hi && isContinuation c2 then
        some (Char.ofNat ((b &&& 0x0F).toNat * 4096 + payload c1 * 64 + payload c2), 2)
      else none
    | _ => none
  else if 0xF0 ≤ b && b ≤ 0xF4 then
    match rest with
    | c1 :: c2 :: c3 :: _ =>
      let lo : UInt8 := if b = 0xF0 then 0x90 else 0x80
      let hi : UInt8 := if b = 0xF4 then 0x8F else 0xBF
      if lo ≤ c1 && c1 ≤ hi && isContinuation c2 && isContinuation c3 then
        some (Char.ofNat ((b &&& 0x07).toNat * 262144 + payload c1 * 4096 + payload c2 * 64 +
          payload c3), 3)
      else none
    | _ => none
  else none

/-- The text of the bytes. -/
def decode : List UInt8 → List Char
  | [] => []
  | b :: rest =>
    match decodeHead b rest with
    | some (c, k) => c :: decode (rest.drop k)
    | none => '\ufffd' :: decode rest
termination_by bs => bs.length
decreasing_by
  all_goals simp only [List.length_drop, List.length_cons]
  all_goals omega

/-- The text of the bytes, as a string. -/
def toText (bytes : ByteArray) : String :=
  String.ofList (decode bytes.toList)

end Utf8

end Paging
