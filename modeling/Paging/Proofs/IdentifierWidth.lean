import Paging.Register
/-!
# The width of identifiers

A hart implements some of the sixteen bits of the address-space identifier field of `satp`, and
some of the fourteen bits of the virtual-machine identifier field of `hgatp`; the others read
back as zero whatever is written.

Main statement: `RegisterFile.probeMaxId_eq_implemented`. On registers whose identifier fields
keep only their implemented bits, and which hold no unimplemented bit of them to begin with, the
address-space probe gives the implemented bits of its field and the virtual-machine probe those
of its fourteen bits, each as a 16-bit word that loses none of them, and both probes leave the
registers as they found them.
-/

namespace Paging

namespace RegisterFile

theorem probeMaxId_eq_implemented (satp asidBits hgatp vmidBits : UInt64)
    (hs : satp &&& asidField &&& ~~~asidBits = 0)
    (hh : hgatp &&& vmidField &&& ~~~vmidBits = 0) :
    ((withIds satp asidBits hgatp vmidBits).probeMaxAsid.1.toUInt64 =
        Word.shiftRight asidBits atpIdShift &&& asidMask ∧
      (withIds satp asidBits hgatp vmidBits).probeMaxAsid.2 = withIds satp asidBits hgatp vmidBits) ∧
    ((withIds satp asidBits hgatp vmidBits).probeMaxVmid.1.toUInt64 =
        Word.shiftRight vmidBits atpIdShift &&& vmidMask ∧
      (withIds satp asidBits hgatp vmidBits).probeMaxVmid.2 = withIds satp asidBits hgatp vmidBits) := by
  have ha := Register.probeField_withField satp asidBits asidMask atpIdShift hs
  have hv := Register.probeField_withField hgatp vmidBits vmidMask atpIdShift hh
  simp only [probeMaxAsid, probeMaxVmid, withIds, asidField, vmidField] at ha hv ⊢
  rw [ha, hv]
  exact ⟨⟨toUInt64_toUInt16_and _ _ (by decide), rfl⟩, ⟨toUInt64_toUInt16_and _ _ (by decide), rfl⟩⟩

/-- Eight implemented address-space identifier bits and all sixteen bits of the
virtual-machine field implemented: the probes give 255 and 16383. -/
theorem probeMaxId_eight_and_sixteen :
    (0x8000000000012345 &&& asidField &&& ~~~(0xff00000000000 : UInt64) = 0 ∧
      0x8000000000054321 &&& vmidField &&& ~~~(0xffff00000000000 : UInt64) = 0) ∧
    (((withIds 0x8000000000012345 0xff00000000000 0x8000000000054321
        0xffff00000000000).probeMaxAsid.1.toUInt64 =
        Word.shiftRight 0xff00000000000 atpIdShift &&& asidMask ∧
      (withIds 0x8000000000012345 0xff00000000000 0x8000000000054321
        0xffff00000000000).probeMaxAsid.2 =
        withIds 0x8000000000012345 0xff00000000000 0x8000000000054321 0xffff00000000000) ∧
    ((withIds 0x8000000000012345 0xff00000000000 0x8000000000054321
        0xffff00000000000).probeMaxVmid.1.toUInt64 =
        Word.shiftRight 0xffff00000000000 atpIdShift &&& vmidMask ∧
      (withIds 0x8000000000012345 0xff00000000000 0x8000000000054321
        0xffff00000000000).probeMaxVmid.2 =
        withIds 0x8000000000012345 0xff00000000000 0x8000000000054321 0xffff00000000000)) :=
  ⟨⟨by decide, by decide⟩,
    probeMaxId_eq_implemented 0x8000000000012345 0xff00000000000 0x8000000000054321
      0xffff00000000000 (by decide) (by decide)⟩

end RegisterFile

end Paging
