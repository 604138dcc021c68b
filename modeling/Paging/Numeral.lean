/-!
# Numerals in reports

Reports print numbers in two ways: decimal, and hexadecimal with lowercase digits and no
leading zeros (the reader adds `0x` where the text wants it). A numeral may be padded with
spaces on the left to a least width; a longer numeral is kept whole.
-/

namespace Paging

namespace Numeral

/-- The decimal numeral of `n`. -/
def decimal (n : Nat) : String :=
  String.ofList (Nat.toDigits 10 n)

/-- The hexadecimal numeral of `n`, lowercase, without prefix. -/
def hex (n : Nat) : String :=
  String.ofList (Nat.toDigits 16 n)

/-- Pads `s` on the left with spaces to at least `width` characters. -/
def padLeft (width : Nat) (s : String) : String :=
  String.ofList (List.replicate (width - s.length) ' ') ++ s

end Numeral

end Paging
