import Paging.Proofs.TableMemory
/-!
# The encoding of entries

An entry packs a page number and eight flags into a word. This module reads the flags as a set
of bit positions (`Flags.bitSet`) and shows that the encoding is exact in both directions:

* the flag tests are set operations: `hasAll` is inclusion and `hasAny` is a meeting of the
  two sets (`Flags.hasAll_iff`, `Flags.hasAny_iff`), so a mapping is a leaf exactly when its
  flags hold read, write or execute (`Flags.hasAny_rwx_iff`);
* an entry is `Canonical` when the bits that the encoding never sets are clear, which in numbers
  is a bound on the word and on its low ten bits (`Entry.canonical_iff`);
* every encoded entry is canonical (`Entry.canonical_ofPPN`), and every canonical entry is the
  encoding of its own page number and flags (`Entry.ofPPN_ppn_flags`).

Main statement: `Entry.encoding_round_trips`.
-/

namespace Paging

namespace Flags

/-- The bit positions of the flags that `f` sets. -/
def bitSet (f : Flags) : Finset (Fin 8) :=
  Finset.univ.filter fun i => f.bits.toNat.testBit i

theorem mem_bitSet {f : Flags} {i : Fin 8} : i ∈ f.bitSet ↔ f.bits.toNat.testBit i = true := by
  simp [bitSet]

theorem testBit_bits_of_le (f : Flags) {i : Nat} (h : 8 ≤ i) : f.bits.toNat.testBit i = false :=
  Nat.testBit_eq_false_of_lt
    (Nat.lt_of_lt_of_le f.bits.toNat_lt (Nat.pow_le_pow_right (by norm_num) h))

/-- `f` has every flag of `g` exactly when the flags of `g` are among those of `f`. -/
theorem hasAll_iff (f g : Flags) : f.hasAll g = true ↔ g.bitSet ⊆ f.bitSet := by
  rw [hasAll, beq_iff_eq, ← UInt8.toNat_inj, UInt8.toNat_and]
  constructor
  · intro h i hi
    rw [mem_bitSet] at hi ⊢
    rw [← h, Nat.testBit_and] at hi
    exact (Bool.and_eq_true _ _ ▸ hi).1
  · intro h
    apply Nat.eq_of_testBit_eq
    intro i
    rw [Nat.testBit_and]
    by_cases hi : i < 8
    · have := @h ⟨i, hi⟩
      simp only [mem_bitSet] at this
      cases hg : g.bits.toNat.testBit i <;> simp_all
    · -- above the eighth bit neither byte has any bit
      simp [testBit_bits_of_le g (show 8 ≤ i by omega), testBit_bits_of_le f (show 8 ≤ i by omega)]

/-- `f` has some flag of `g` exactly when the two sets of flags meet. -/
theorem hasAny_iff (f g : Flags) : f.hasAny g = true ↔ (g.bitSet ∩ f.bitSet).Nonempty := by
  rw [hasAny, bne_iff_ne, ne_eq, ← UInt8.toNat_inj, UInt8.toNat_and]
  constructor
  · intro h
    obtain ⟨i, hi⟩ := Nat.exists_testBit_of_ne_zero h
    rw [Nat.testBit_and, Bool.and_eq_true] at hi
    have hlt : i < 8 := by
      by_contra hge
      rw [testBit_bits_of_le f (by omega)] at hi
      exact Bool.false_ne_true hi.1
    exact ⟨⟨i, hlt⟩, Finset.mem_inter.2 ⟨mem_bitSet.2 hi.2, mem_bitSet.2 hi.1⟩⟩
  · rintro ⟨i, hi⟩ h0
    rw [Finset.mem_inter, mem_bitSet, mem_bitSet] at hi
    have := Nat.testBit_and f.bits.toNat g.bits.toNat i
    rw [h0, UInt8.toNat_zero, Nat.zero_testBit, hi.1, hi.2] at this
    exact Bool.false_ne_true this

theorem bitSet_read : read.bitSet = {1} := by decide

theorem bitSet_write : write.bitSet = {2} := by decide

theorem bitSet_execute : execute.bitSet = {3} := by decide

theorem bitSet_rwx : rwx.bitSet = {1, 2, 3} := by decide

/-- Flags that make a leaf grant read, write or execute. -/
theorem hasAny_rwx_iff (f : Flags) :
    f.hasAny rwx = true ↔
      read.bitSet ⊆ f.bitSet ∨ write.bitSet ⊆ f.bitSet ∨ execute.bitSet ⊆ f.bitSet := by
  rw [hasAny_iff, bitSet_rwx, bitSet_read, bitSet_write, bitSet_execute]
  simp [Finset.Nonempty, Finset.singleton_subset_iff]

end Flags

namespace Entry

/-- The bits of an entry that the encoding never sets are clear: the two bits 8 and 9 between
the flags and the page number, and the ten bits from 54 up above the page number. -/
def Canonical (e : Entry) : Prop :=
  ∀ i, (i = 8 ∨ i = 9 ∨ 54 ≤ i) → e.raw.toNat.testBit i = false

/-- In numbers: the word lies below `2 ^ 54`, and its low ten bits below `2 ^ 8`. -/
theorem canonical_iff (e : Entry) :
    e.Canonical ↔ e.raw.toNat % 2 ^ 10 < 2 ^ 8 ∧ e.raw.toNat < 2 ^ 54 := by
  constructor
  · intro h
    have h8 := h 8 (by omega)
    have h9 := h 9 (by omega)
    rw [Nat.testBit_eq_decide_div_mod_eq, decide_eq_false_iff_not] at h8 h9
    exact ⟨by omega, Nat.lt_pow_two_of_testBit _ fun i hi => h i (by omega)⟩
  · rintro ⟨hlow, hhigh⟩ i hi
    rcases hi with rfl | rfl | hi
    · rw [Nat.testBit_eq_decide_div_mod_eq, decide_eq_false_iff_not]
      omega
    · rw [Nat.testBit_eq_decide_div_mod_eq, decide_eq_false_iff_not]
      omega
    · exact Nat.testBit_eq_false_of_lt
        (Nat.lt_of_lt_of_le hhigh (Nat.pow_le_pow_right (by norm_num) hi))

theorem canonical_ofPPN (p : PhysPage) (f : Flags) : (ofPPN p f).Canonical := by
  have hf := f.bits.toNat_lt
  have hp : p.toNat % 2 ^ 44 < 2 ^ 44 := Nat.mod_lt _ (by norm_num)
  rw [canonical_iff, toNat_raw_ofPPN]
  constructor <;> omega

/-- A canonical entry is the encoding of its own page number and flags. -/
theorem ofPPN_ppn_flags {e : Entry} (h : e.Canonical) : ofPPN e.ppn e.flags = e := by
  obtain ⟨hlow, hhigh⟩ := (canonical_iff e).1 h
  show Entry.mk (ofPPN e.ppn e.flags).raw = Entry.mk e.raw
  congr 1
  apply UInt64.toNat_inj.1
  rw [toNat_raw_ofPPN, toNat_ppn, toNat_bits_flags]
  omega

/-- Writing an entry from a page number and flags, whatever the entry held before (the encoder
takes no old entry), gives a canonical entry whose page number is the page number cut to 44 bits
and whose flags are the flags, tested as sets; a pointer is valid and no leaf; a mapping is valid,
has the valid flag added, and is a leaf exactly when it grants read, write or execute. Every
canonical entry is written back by its own page number and flags. -/
theorem encoding_round_trips (p : PhysPage) (f : Flags) :
    (ofPPN p f).Canonical ∧ (ofPPN p f).ppn.toNat = p.toNat % 2 ^ 44 ∧ (ofPPN p f).flags = f ∧
      (∀ g, (ofPPN p f).hasFlags g = true ↔ g.bitSet ⊆ f.bitSet) ∧
      (∀ g, (ofPPN p f).hasAnyFlag g = true ↔ (g.bitSet ∩ f.bitSet).Nonempty) ∧
      (child p).valid = true ∧ (child p).isLeaf = false ∧
      (mapping p f).valid = true ∧ (mapping p f).flags = f ||| .valid ∧
      ((mapping p f).isLeaf = true ↔
        Flags.read.bitSet ⊆ f.bitSet ∨ Flags.write.bitSet ⊆ f.bitSet ∨
          Flags.execute.bitSet ⊆ f.bitSet) ∧
      ∀ e : Entry, e.Canonical → ofPPN e.ppn e.flags = e := by
  refine ⟨canonical_ofPPN p f, toNat_ppn_ofPPN p f, flags_ofPPN p f, fun g => ?_, fun g => ?_,
    valid_child p, isLeaf_child p, valid_mapping p f, flags_mapping p f, ?_,
    fun e he => ofPPN_ppn_flags he⟩
  · rw [hasFlags, flags_ofPPN, Flags.hasAll_iff]
  · rw [hasAnyFlag, flags_ofPPN, Flags.hasAny_iff]
  · rw [isLeaf_mapping, Flags.hasAny_rwx_iff]

end Entry

end Paging
