import Paging.Proofs.SoundMode
import Paging.Proofs.FrameAccounts
import Paging.Machine.Space
/-!
# Entries in memory

A table entry is a word of RAM. This module reads entries as numbers and memory as a map from
word keys to words, so that the page-table proofs never look inside either again:

* an entry built from a page and flags gives both back (`flags_ofPPN`, `toNat_ppn_ofPPN`), a
  pointer is valid and no leaf (`valid_child`, `isLeaf_child`), and a mapping is valid and a leaf
  exactly when its flags grant read, write or execute (`valid_mapping`, `isLeaf_mapping`);
* an aligned word is read and written at its key (`readWord_eq`, `writeWord_eq`), and a fill
  sets the keys it covers (`word_fill`);
* entry `i` of the table at `t` lies at the key `slotKey M t i`; `entryAt` is the entry memory
  holds there, and a write or a fill changes it only at its own key (`entryAt_writeWord`,
  `entryAt_fill`).
-/

namespace Paging

/-! ## Entries as numbers -/

namespace Flags

theorem hasAny_or_valid (f : Flags) : (f ||| valid).hasAny rwx = f.hasAny rwx := by
  have h : (f ||| valid).bits &&& rwx.bits = f.bits &&& rwx.bits := by
    apply UInt8.toNat_inj.1
    show ((f.bits ||| 1) &&& 14).toNat = (f.bits &&& 14).toNat
    rw [UInt8.toNat_and, UInt8.toNat_or, Nat.and_or_distrib_right, UInt8.toNat_and]
    simp
  simp only [hasAny, h]

theorem or_valid_and_valid (f : Flags) : (f ||| valid).bits &&& valid.bits = valid.bits := by
  apply UInt8.toNat_inj.1
  show ((f.bits ||| 1) &&& 1).toNat = 1
  rw [UInt8.toNat_and, UInt8.toNat_or, Nat.and_or_distrib_right]
  show f.bits.toNat &&& 1 ||| 1 = 1
  rcases Nat.mod_two_eq_zero_or_one f.bits.toNat with h | h <;>
    simp [Nat.and_one_is_mod, h]

end Flags

namespace Entry

theorem toNat_raw_ofPPN (p : PhysPage) (f : Flags) :
    (ofPPN p f).raw.toNat = p.toNat % 2 ^ 44 * 2 ^ 10 + f.bits.toNat := by
  have hf : f.bits.toNat < 2 ^ 10 := by have := f.bits.toNat_lt; omega
  have hp : p.toNat % 2 ^ 44 < 2 ^ 44 := Nat.mod_lt _ (by norm_num)
  simp only [ofPPN, UInt64.toNat_or, Word.toNat_shiftLeft, UInt8.toNat_toUInt64, ppnMask, ppnShift]
  rw [Word.toNat_and_lowMask _ (by norm_num), Nat.shiftLeft_eq,
    Nat.mod_eq_of_lt (show p.toNat % 2 ^ 44 * 2 ^ 10 < UInt64.size by
      simp only [UInt64.size]; omega),
    ← Nat.shiftLeft_eq, ← Nat.shiftLeft_add_eq_or_of_lt hf, Nat.shiftLeft_eq]

theorem toNat_ppn (e : Entry) : e.ppn.toNat = e.raw.toNat / 2 ^ 10 % 2 ^ 44 := by
  rw [ppn, ppnMask, Word.toNat_and_lowMask _ (by norm_num), Word.toNat_shiftRight, ppnShift,
    Nat.shiftRight_eq_div_pow]

theorem toNat_bits_flags (e : Entry) : e.flags.bits.toNat = e.raw.toNat % 2 ^ 8 :=
  UInt64.toNat_toUInt8 e.raw

@[simp] theorem flags_ofPPN (p : PhysPage) (f : Flags) : (ofPPN p f).flags = f := by
  have hf := f.bits.toNat_lt
  cases f with
  | mk b =>
    show (⟨(ofPPN p ⟨b⟩).flags.bits⟩ : Flags) = ⟨b⟩
    congr 1
    apply UInt8.toNat_inj.1
    rw [toNat_bits_flags, toNat_raw_ofPPN]
    simp only at hf ⊢
    omega

theorem toNat_ppn_ofPPN (p : PhysPage) (f : Flags) : (ofPPN p f).ppn.toNat = p.toNat % 2 ^ 44 := by
  have hf : f.bits.toNat < 2 ^ 10 := by have := f.bits.toNat_lt; omega
  rw [toNat_ppn, toNat_raw_ofPPN]
  omega

theorem ppn_ofPPN {p : PhysPage} (f : Flags) (h : p.toNat < 2 ^ 44) : (ofPPN p f).ppn = p :=
  UInt64.toNat_inj.1 (by rw [toNat_ppn_ofPPN, Nat.mod_eq_of_lt h])

@[simp] theorem valid_child (p : PhysPage) : (child p).valid = true := by
  simp only [valid, hasFlags, child, flags_ofPPN]
  rfl

@[simp] theorem isLeaf_child (p : PhysPage) : (child p).isLeaf = false := by
  simp only [isLeaf, hasAnyFlag, child, flags_ofPPN]
  rfl

@[simp] theorem valid_mapping (p : PhysPage) (f : Flags) : (mapping p f).valid = true := by
  simp only [valid, hasFlags, mapping, flags_ofPPN, Flags.hasAll, Flags.or_valid_and_valid]
  exact beq_self_eq_true _

@[simp] theorem isLeaf_mapping (p : PhysPage) (f : Flags) :
    (mapping p f).isLeaf = f.hasAny .rwx := by
  simp only [isLeaf, hasAnyFlag, mapping, flags_ofPPN, Flags.hasAny_or_valid]

@[simp] theorem flags_mapping (p : PhysPage) (f : Flags) : (mapping p f).flags = f ||| .valid :=
  flags_ofPPN _ _

@[simp] theorem valid_zero : (⟨0⟩ : Entry).valid = false := rfl

end Entry

/-! ## Memory as words -/

namespace Memory

theorem word_insert (m : Memory) (k k' v : UInt64) :
    ({ m with words := m.words.insert k v } : Memory).word k' =
      if k = k' then v else m.word k' := by
  by_cases h : k = k'
  · subst h
    simp [word]
  · simp only [word, Std.HashMap.get?_insert, beq_iff_eq, h, if_false]
    rfl

theorem readWord_eq {m : Memory} {addr : PhysAddr} (h : addr &&& 7 = 0) :
    m.readWord addr = m.word (addr >>> 3) := by
  simp [readWord, h]

theorem writeWord_eq {m : Memory} {addr : PhysAddr} (h : addr &&& 7 = 0) (v : UInt64) :
    m.writeWord addr v = { m with words := m.words.insert (addr >>> 3) v } := by
  simp [writeWord, h]

/-- Writing the same word at the keys `base, base + 1, …` in turn. -/
theorem word_foldl_insert (m : Memory) (base w k : UInt64) (n : Nat)
    (h : base.toNat + n ≤ UInt64.size) :
    ((List.range n).foldl (fun (acc : Memory) i =>
        { acc with words := acc.words.insert (base + i.toUInt64) w }) m).word k =
      if base.toNat ≤ k.toNat ∧ k.toNat < base.toNat + n then w else m.word k := by
  induction n with
  | zero =>
    simp only [List.range_zero, List.foldl_nil]
    rw [if_neg (by omega)]
  | succ n ih =>
    rw [List.range_succ, List.foldl_append, List.foldl_cons, List.foldl_nil, word_insert,
      ih (by omega)]
    have hkey : (base + n.toUInt64).toNat = base.toNat + n :=
      FrameAllocator.toNat_add_toUInt64 (by omega)
    by_cases hk : base + n.toUInt64 = k
    · rw [if_pos hk, if_pos]
      rw [← hk, hkey]
      omega
    · rw [if_neg hk]
      have hk' : k.toNat ≠ base.toNat + n := fun e => hk (UInt64.toNat_inj.1 (hkey.trans e.symm))
      by_cases hin : base.toNat ≤ k.toNat ∧ k.toNat < base.toNat + n
      · rw [if_pos hin, if_pos (by omega)]
      · rw [if_neg hin, if_neg (by omega)]

/-- A fill of whole aligned words sets exactly the words it covers. -/
theorem word_fill {m : Memory} {addr : PhysAddr} {size : Nat} (v : UInt8) (k : UInt64)
    (h : addr &&& 7 = 0) (hs : size % 8 = 0) (hk : (addr >>> 3).toNat + size / 8 ≤ UInt64.size) :
    (m.fill addr size v).word k =
      if (addr >>> 3).toNat ≤ k.toNat ∧ k.toNat < (addr >>> 3).toNat + size / 8 then
        wordOfBytes (List.replicate 8 v)
      else m.word k := by
  simp only [fill, h, hs, decide_true, Bool.and_self, if_true]
  exact word_foldl_insert m _ _ k _ hk

end Memory

/-! ## Entries of tables -/

namespace Mode

/-- The key of the word that holds entry `i` of the table at `t`. -/
def slotKey (M : Mode) (t : PhysPage) (i : UInt64) : Nat :=
  t.toNat * 2 ^ (M.frameShift - 3) + i.toNat

/-- Entry `i` of the table at `t` lies below the top of the address space. -/
def SlotFits (M : Mode) (t : PhysPage) (i : UInt64) : Prop :=
  t.toNat * 2 ^ M.frameShift + 8 * i.toNat < UInt64.size

/-- The entry `i` of the table at `t`, as memory holds it. -/
def entryAt (M : Mode) (mem : Memory) (t : PhysPage) (i : UInt64) : Entry :=
  ⟨mem.readWord (Machine.slotAddr M t i)⟩

variable {M : Mode}

theorem toNat_physAddrOf {t : PhysPage} (h : t.toNat * 2 ^ M.frameShift < UInt64.size) :
    (M.physAddrOf t).toNat = t.toNat * 2 ^ M.frameShift := by
  rw [physAddrOf, Word.toNat_shiftLeft, Nat.shiftLeft_eq, Nat.mod_eq_of_lt h]

theorem Sound.pow_frameShift (hM : M.Sound) : 2 ^ M.frameShift = 2 ^ (M.frameShift - 3) * 8 := by
  rw [show (8 : Nat) = 2 ^ 3 from rfl, ← pow_add, Nat.sub_add_cancel hM.three_le_frameShift]

/-- The address of an entry is eight times its key. -/
theorem Sound.toNat_slotAddr (hM : M.Sound) {t : PhysPage} {i : UInt64} (h : M.SlotFits t i) :
    (Machine.slotAddr M t i).toNat = M.slotKey t i * 8 := by
  have hs : UInt64.size = 2 ^ 64 := rfl
  have hkey : t.toNat * 2 ^ M.frameShift + 8 * i.toNat = M.slotKey t i * 8 := by
    rw [slotKey, hM.pow_frameShift]
    ring
  unfold SlotFits at h
  rw [Machine.slotAddr, UInt64.toNat_add, toNat_physAddrOf (by omega), UInt64.toNat_mul,
    show entryBytes.toNat = 8 from rfl, Nat.mod_eq_of_lt (show i.toNat * 8 < 2 ^ 64 by omega),
    Nat.mod_eq_of_lt (by omega), ← hkey]
  omega

theorem toNat_and_seven_of_mul {x : UInt64} {k : Nat} (h : x.toNat = k * 8) : x &&& 7 = 0 := by
  apply UInt64.toNat_inj.1
  rw [UInt64.toNat_and, h, show (7 : UInt64).toNat = 2 ^ 3 - 1 from rfl,
    Nat.and_two_pow_sub_one_eq_mod, UInt64.toNat_zero]
  omega

theorem toNat_shiftRight_three_of_mul {x : UInt64} {k : Nat} (h : x.toNat = k * 8) :
    (x >>> 3).toNat = k := by
  rw [UInt64.toNat_shiftRight, h, show (3 : UInt64).toNat % 64 = 3 from rfl,
    Nat.shiftRight_eq_div_pow]
  omega

theorem Sound.entryAt_eq (hM : M.Sound) (mem : Memory) {t : PhysPage} {i : UInt64}
    (h : M.SlotFits t i) :
    M.entryAt mem t i = ⟨mem.word (Machine.slotAddr M t i >>> 3)⟩ := by
  rw [entryAt, Memory.readWord_eq (toNat_and_seven_of_mul (hM.toNat_slotAddr h))]

/-- A write of an entry changes that entry only. -/
theorem Sound.entryAt_writeWord (hM : M.Sound) (mem : Memory) {t t' : PhysPage} {i i' : UInt64}
    (h : M.SlotFits t i) (h' : M.SlotFits t' i') (v : UInt64) :
    M.entryAt (mem.writeWord (Machine.slotAddr M t i) v) t' i' =
      if M.slotKey t i = M.slotKey t' i' then ⟨v⟩ else M.entryAt mem t' i' := by
  have hk := toNat_shiftRight_three_of_mul (hM.toNat_slotAddr h)
  have hk' := toNat_shiftRight_three_of_mul (hM.toNat_slotAddr h')
  rw [hM.entryAt_eq _ h', hM.entryAt_eq _ h',
    Memory.writeWord_eq (toNat_and_seven_of_mul (hM.toNat_slotAddr h)), Memory.word_insert]
  by_cases hkk : Machine.slotAddr M t i >>> 3 = Machine.slotAddr M t' i' >>> 3
  · rw [if_pos hkk, if_pos (by rw [← hk, ← hk', hkk])]
  · rw [if_neg hkk, if_neg (fun e => hkk (UInt64.toNat_inj.1 (by rw [hk, hk', e])))]

/-- Clearing the `n` entries of the table at `p` clears the entries whose keys it covers. -/
theorem Sound.entryAt_fill (hM : M.Sound) (mem : Memory) {p t : PhysPage} {n : Nat} {i : UInt64}
    (hn : 0 < n) (hp : p.toNat * 2 ^ M.frameShift + 8 * n ≤ UInt64.size) (h : M.SlotFits t i) :
    M.entryAt (mem.fill (M.physAddrOf p) (n * 8) 0) t i =
      if p.toNat * 2 ^ (M.frameShift - 3) ≤ M.slotKey t i ∧
          M.slotKey t i < p.toNat * 2 ^ (M.frameShift - 3) + n then ⟨0⟩
      else M.entryAt mem t i := by
  have haddr : (M.physAddrOf p).toNat = p.toNat * 2 ^ (M.frameShift - 3) * 8 := by
    rw [toNat_physAddrOf (by omega), hM.pow_frameShift, Nat.mul_assoc]
  have hkey := toNat_shiftRight_three_of_mul haddr
  have hk := toNat_shiftRight_three_of_mul (hM.toNat_slotAddr h)
  rw [hM.pow_frameShift] at hp
  rw [hM.entryAt_eq _ h, hM.entryAt_eq _ h,
    Memory.word_fill 0 _ (toNat_and_seven_of_mul haddr) (by omega)
      (by rw [hkey, Nat.mul_div_cancel _ (by norm_num)]; rw [← Nat.mul_assoc] at hp; omega),
    hkey, hk, Nat.mul_div_cancel _ (by norm_num)]
  split <;> rfl

end Mode

end Paging