import Paging.Mode.Basic
/-!
# Paging registers

A hart selects its paging mode and tables through two registers: `satp` for the supervisor and `hgatp`
for the guest stage. Each holds a mode field (bits 60 to 63), an identifier field (from bit 44:
sixteen bits of address-space identifier, or fourteen of virtual-machine identifier) and the
root table's page number (bits 0 to 43).

Identifier fields are write-any, read-legal: bits that the hart does not implement read back
as zero. `Register.probeField` finds the implemented width by writing all ones into a field
and reading back what stuck, and leaves the register as it found it.

Main statement: `Register.probeField_withField`, which says that on a register whose field keeps
only its implemented bits the probe gives exactly those bits and restores the register.
-/

namespace Paging

/-- A control register; only the bits of `sticky` keep what is written, the others read as
zero. -/
structure Register where
  value : UInt64 := 0
  sticky : UInt64 := ~~~0
  deriving DecidableEq, Repr

namespace Register

/-- The value that a read gives. -/
def read (r : Register) : UInt64 :=
  r.value

/-- Writes `v`; the bits that do not stick are cleared. -/
def write (r : Register) (v : UInt64) : Register :=
  { r with value := v &&& r.sticky }

/-- Writes `v` and gives the value held before. -/
def swap (r : Register) (v : UInt64) : UInt64 × Register :=
  (r.read, r.write v)

/-- The bits of the field `mask` at `shift` that stick: all ones are swapped into the field, the
old value is swapped back, and the field of what came back is the answer. -/
def probeField (r : Register) (shift : Nat) (mask : UInt64) : UInt64 × Register :=
  let old := r.read
  let (_, r) := r.swap (old ||| Word.shiftLeft mask shift)
  let (back, r) := r.swap old
  (Word.shiftRight back shift &&& mask, r)

/-- The register holding `value` whose bits of `field` keep only the implemented ones of what is
written, and whose other bits keep all. -/
def withField (value field implemented : UInt64) : Register :=
  { value, sticky := ~~~(field &&& ~~~implemented) }

theorem getLsbD_of_and_not_eq_zero {a b c : UInt64} (h : a &&& b &&& ~~~c = 0) (i : Nat) :
    (a.toBitVec.getLsbD i && b.toBitVec.getLsbD i && !c.toBitVec.getLsbD i) = false := by
  have := congrArg (fun x : UInt64 => x.toBitVec.getLsbD i) h
  simp only [UInt64.toBitVec_and, UInt64.toBitVec_not, BitVec.getLsbD_and, BitVec.getLsbD_not,
    UInt64.toBitVec_zero, BitVec.getLsbD_zero] at this
  by_cases hi : i < 64
  · simpa [hi] using this
  · simp [BitVec.getLsbD_of_ge a.toBitVec i (by omega)]

/-- Probing a field gives the implemented bits of the field, read back by the restoring swap,
and leaves the register as it was, provided that it held no unimplemented bit of the field. -/
theorem probeField_withField (value implemented mask : UInt64) (shift : Nat)
    (h : value &&& Word.shiftLeft mask shift &&& ~~~implemented = 0) :
    (withField value (Word.shiftLeft mask shift) implemented).probeField shift mask =
      (Word.shiftRight implemented shift &&& mask,
        withField value (Word.shiftLeft mask shift) implemented) := by
  simp only [probeField, swap, read, write, withField]
  refine Prod.ext ?_ ?_
  · dsimp only
    apply UInt64.toBitVec_inj.mp
    apply BitVec.eq_of_getLsbD_eq
    intro i hi
    simp only [UInt64.toBitVec_and, UInt64.toBitVec_or, UInt64.toBitVec_not,
      Word.toBitVec_shiftLeft, Word.toBitVec_shiftRight, BitVec.getLsbD_and, BitVec.getLsbD_or,
      BitVec.getLsbD_not, BitVec.getLsbD_shiftLeft, BitVec.getLsbD_ushiftRight]
    by_cases hs : shift + i < 64
    · have hlt : ¬shift + i < shift := by omega
      simp only [hs, hlt, decide_true, decide_false, Bool.not_false, Bool.true_and, Bool.and_true,
        Nat.add_sub_cancel_left]
      cases value.toBitVec.getLsbD (shift + i) <;> cases mask.toBitVec.getLsbD i <;>
        cases implemented.toBitVec.getLsbD (shift + i) <;> rfl
    · simp [BitVec.getLsbD_of_ge implemented.toBitVec (shift + i) (by omega),
        BitVec.getLsbD_of_ge value.toBitVec (shift + i) (by omega), hs]
  · dsimp only
    simp only [Register.mk.injEq, and_true]
    apply UInt64.toBitVec_inj.mp
    apply BitVec.eq_of_getLsbD_eq
    intro i hi
    have hb := getLsbD_of_and_not_eq_zero h i
    simp only [UInt64.toBitVec_and, UInt64.toBitVec_not, Word.toBitVec_shiftLeft,
      BitVec.getLsbD_and, BitVec.getLsbD_not, BitVec.getLsbD_shiftLeft] at hb ⊢
    simp only [hi, decide_true, Bool.true_and] at hb ⊢
    revert hb
    cases value.toBitVec.getLsbD i <;> cases decide (i < shift) <;>
      cases mask.toBitVec.getLsbD (i - shift) <;> cases implemented.toBitVec.getLsbD i <;> simp

end Register

/-- The position of the identifier field in both registers. -/
def atpIdShift : Nat := 44

/-- The implemented bits of an address-space identifier, at most sixteen. -/
def asidMask : UInt64 := 0xffff

/-- The implemented bits of a virtual-machine identifier, at most fourteen. -/
def vmidMask : UInt64 := 0x3fff

/-- The bits of the address-space identifier field. -/
def asidField : UInt64 := Word.shiftLeft asidMask atpIdShift

/-- The bits of the virtual-machine identifier field. -/
def vmidField : UInt64 := Word.shiftLeft vmidMask atpIdShift

/-- A field of at most sixteen bits loses nothing as a 16-bit word. -/
theorem toUInt64_toUInt16_and (x m : UInt64) (hm : m.toNat < 65536) :
    (x &&& m).toUInt16.toUInt64 = x &&& m := by
  apply UInt64.toNat_inj.mp
  have : (x &&& m).toNat < 65536 := by
    rw [UInt64.toNat_and]; exact Nat.lt_of_le_of_lt Nat.and_le_right hm
  simp only [UInt16.toNat_toUInt64, UInt64.toNat_toUInt16]
  exact Nat.mod_eq_of_lt this

/-- The register value that selects a space: the mode in bits 60 to 63, the identifier
from bit 44, and the root's page number cut to 44 bits. Each part is shifted into place in
wrapping arithmetic, so no part is masked but the page number. -/
def atpBits (mode id : UInt64) (root : PhysPage) : UInt64 :=
  Word.shiftLeft mode 60 ||| Word.shiftLeft id atpIdShift ||| (root &&& Word.lowMask 44)

/-- The supervisor register value for a space of mode `m` with the identifier and root. -/
def Mode.satpBits (m : Mode) (asid : UInt16) (root : PhysPage) : UInt64 :=
  atpBits m.atpMode asid.toUInt64 root

/-- The guest-stage register value for a guest space with the identifier and root; the
identifier is cut to its fourteen bits. -/
def hgatpBits (vmid : UInt16) (root : PhysPage) : UInt64 :=
  atpBits Mode.sv39x4.atpMode (vmid.toUInt64 &&& vmidMask) root

/-- The paging registers of a hart. -/
structure RegisterFile where
  satp : Register := {}
  hgatp : Register := {}
  deriving DecidableEq, Repr

namespace RegisterFile

/-- The paging registers holding `satp` and `hgatp`, whose identifier fields keep only the
implemented bits `asidBits` and `vmidBits` of what is written. -/
def withIds (satp asidBits hgatp vmidBits : UInt64) : RegisterFile :=
  { satp := Register.withField satp asidField asidBits,
    hgatp := Register.withField hgatp vmidField vmidBits }

/-- The largest address-space identifier that the hart implements. -/
def probeMaxAsid (rf : RegisterFile) : UInt16 × RegisterFile :=
  let (v, satp) := rf.satp.probeField atpIdShift asidMask
  (v.toUInt16, { rf with satp := satp })

/-- The largest virtual-machine identifier that the hart implements. -/
def probeMaxVmid (rf : RegisterFile) : UInt16 × RegisterFile :=
  let (v, hgatp) := rf.hgatp.probeField atpIdShift vmidMask
  (v.toUInt16, { rf with hgatp := hgatp })

end RegisterFile

end Paging
