/-!
# Filling bytes

`Bytes.fill buf offset size v` sets the `size` bytes of `buf` from `offset` on to `v`. It
writes the first byte and then doubles the filled run by copying it after itself, so a fill of
`n` bytes takes about `log n` copies. `Bytes.fillEach` sets the same bytes one at a time, which
is what the doubling must amount to.
-/

namespace Paging

namespace Bytes

/-- Doubles the run of `filled` bytes at `offset` by copying it after itself, until the run
covers `size` bytes. -/
def spread (buf : ByteArray) (offset size filled : Nat) (h : 0 < filled) : ByteArray :=
  if filled < size then
    spread (buf.copySlice offset buf (offset + filled) (min filled (size - filled)))
      offset size (2 * filled) (by omega)
  else
    buf
termination_by size - filled

/-- Sets the byte at `i` to `v`, if `buf` has such a byte. -/
def setByte (buf : ByteArray) (i : Nat) (v : UInt8) : ByteArray :=
  if h : i < buf.size then buf.set i v h else buf

/-- Sets the `size` bytes from `offset` on to `v`, by doubling a run of filled bytes. -/
def fill (buf : ByteArray) (offset size : Nat) (v : UInt8) : ByteArray :=
  if size = 0 then buf else spread (setByte buf offset v) offset size 1 (by decide)

/-- Sets the `size` bytes from `offset` on to `v`, one byte at a time. -/
def fillEach (buf : ByteArray) (offset : Nat) (v : UInt8) : Nat → ByteArray
  | 0 => buf
  | k + 1 => setByte (fillEach buf offset v k) (offset + k) v

end Bytes

end Paging
