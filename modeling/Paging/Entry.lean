import Paging.Mode.Basic
/-!
# Page-table entries

An entry is a 64-bit word. Its low eight bits are flags: valid, read, write, execute, user,
global, accessed and dirty, from bit 0 up. Bits 10 to 53 hold a 44-bit physical page number:
of the next table for a pointer, of the mapped block for a leaf. An entry is a leaf when it
grants any of read, write or execute.

Writing an entry replaces the whole word (`Entry.ofPPN`): nothing of the old entry survives.
-/

namespace Paging

/-- The eight flag bits of an entry. -/
structure Flags where
  bits : UInt8
  deriving DecidableEq, Repr

namespace Flags

/-- No flag. -/
def empty : Flags := ⟨0⟩
/-- The entry is valid. -/
def valid : Flags := ⟨1⟩
/-- The block may be read. -/
def read : Flags := ⟨2⟩
/-- The block may be written. -/
def write : Flags := ⟨4⟩
/-- The block may be executed. -/
def execute : Flags := ⟨8⟩
/-- The block is accessible in user mode. -/
def user : Flags := ⟨16⟩
/-- The mapping exists in every address space. -/
def global : Flags := ⟨32⟩
/-- The block has been accessed. -/
def accessed : Flags := ⟨64⟩
/-- The block has been written. -/
def dirty : Flags := ⟨128⟩

instance : OrOp Flags := ⟨fun a b => ⟨a.bits ||| b.bits⟩⟩
instance : AndOp Flags := ⟨fun a b => ⟨a.bits &&& b.bits⟩⟩

/-- Read, write and execute: a leaf grants at least one of them. -/
def rwx : Flags := read ||| write ||| execute

/-- Whether every flag of `g` is set in `f`. -/
def hasAll (f g : Flags) : Bool :=
  f.bits &&& g.bits == g.bits

/-- Whether some flag of `g` is set in `f`. -/
def hasAny (f g : Flags) : Bool :=
  f.bits &&& g.bits != 0

/-- The letter of each flag with its bit, from the highest bit down. -/
def letters : List (Char × Nat) :=
  [('D', 7), ('A', 6), ('G', 5), ('U', 4), ('X', 3), ('W', 2), ('R', 1), ('V', 0)]

/-- The flags as eight letters `DAGUXWRV`, highest bit first, with `-` for a clear bit. -/
def render (f : Flags) : String :=
  String.ofList (letters.map fun (c, i) => if f.bits.toNat.testBit i then c else '-')

/-- The flag that a letter names. -/
def ofLetter? (c : Char) : Option Flags :=
  (letters.find? (·.1 == c)).map fun (_, i) => ⟨(1 <<< i : Nat).toUInt8⟩

/-- The flags that a string of letters names, in any order; `-` stands for no flag. A string
with any other character names none. -/
def ofLetters? (s : String) : Option Flags :=
  s.toList.foldlM (fun acc c => if c = '-' then some acc else (ofLetter? c).map (acc ||| ·)) empty

end Flags

/-- A page-table entry. -/
structure Entry where
  raw : UInt64
  deriving DecidableEq, Repr

namespace Entry

/-- The position of the page number in an entry. -/
def ppnShift : Nat := 10

/-- The bits of an entry's page number. -/
def ppnMask : UInt64 := Word.lowMask 44

/-- The empty entry: not valid, no page. -/
def empty : Entry := ⟨0⟩

/-- The entry's flags. -/
def flags (e : Entry) : Flags :=
  ⟨e.raw.toUInt8⟩

/-- Whether the entry has every flag of `f`. -/
def hasFlags (e : Entry) (f : Flags) : Bool :=
  e.flags.hasAll f

/-- Whether the entry has some flag of `f`. -/
def hasAnyFlag (e : Entry) (f : Flags) : Bool :=
  e.flags.hasAny f

/-- Whether the entry is valid. -/
def valid (e : Entry) : Bool :=
  e.hasFlags .valid

/-- Whether the entry maps a block, rather than pointing to a table. -/
def isLeaf (e : Entry) : Bool :=
  e.hasAnyFlag .rwx

/-- The entry's page number. -/
def ppn (e : Entry) : PhysPage :=
  Word.shiftRight e.raw ppnShift &&& ppnMask

/-- The entry that holds the page number, cut to 44 bits, and exactly the given flags. -/
def ofPPN (ppn : PhysPage) (f : Flags) : Entry :=
  ⟨Word.shiftLeft (ppn &&& ppnMask) ppnShift ||| f.bits.toUInt64⟩

/-- The entry that points to the table at `ppn`. -/
def child (ppn : PhysPage) : Entry :=
  ofPPN ppn .valid

/-- The valid leaf that maps the block at `ppn` with the flags. -/
def mapping (ppn : PhysPage) (f : Flags) : Entry :=
  ofPPN ppn (f ||| .valid)

end Entry

end Paging
