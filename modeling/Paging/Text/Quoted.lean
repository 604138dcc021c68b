import Paging.Text.Printable
/-!
# Quoted text

`Text.quote` writes a text between double quotes so that it reads back unambiguously. A quote or
a backslash gets a backslash in front, and a printable character stands for itself. Of the other
characters, the seven controls with a letter escape take it (`\a \b \f \n \r \t \v`), the other
controls below U+0020 and U+007F are written `\xhh`, and the rest `\uhhhh`, or `\Uhhhhhhhh` above
U+FFFF, all in lowercase hexadecimal.
-/

namespace Paging

namespace Text

/-- The lowercase hexadecimal digits of `n`, with zeros in front up to `width` digits. -/
def hexDigits (width n : Nat) : List Char :=
  let d := Nat.toDigits 16 n
  List.replicate (width - d.length) '0' ++ d

/-- The letter escape of a control character, if it has one. -/
def letterEscape (c : Char) : Option Char :=
  match c.toNat with
  | 7 => some 'a'
  | 8 => some 'b'
  | 9 => some 't'
  | 10 => some 'n'
  | 11 => some 'v'
  | 12 => some 'f'
  | 13 => some 'r'
  | _ => none

/-- How a character is written between quotes. -/
def escape (c : Char) : List Char :=
  if c = '"' || c = '\\' then ['\\', c]
  else if isPrintable c then [c]
  else
    match letterEscape c with
    | some l => ['\\', l]
    | none =>
      if c.toNat < 0x20 || c.toNat = 0x7f then '\\' :: 'x' :: hexDigits 2 c.toNat
      else if c.toNat < 0x10000 then '\\' :: 'u' :: hexDigits 4 c.toNat
      else '\\' :: 'U' :: hexDigits 8 c.toNat

/-- The text between double quotes, each character written as `escape` says. -/
def quote (s : String) : String :=
  String.ofList ('"' :: s.toList.flatMap escape ++ ['"'])

end Text

end Paging
