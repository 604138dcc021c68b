import Paging.Identifier
/-!
# The accounts of an identifier allocator

An identifier allocator hands out the identifiers `0 … max` and takes them back; its clients hold
the identifiers handed out and not yet given back. Like the frame allocator it keeps no record of
them. Its watermark, its exhausted flag and its stack of recycled identifiers account for them all
the same: every identifier issued so far (those below the watermark, and the maximum too once the
allocator is exhausted) is either recycled or held, and only once (`Accounts`). The flag stands in
for a watermark of `max + 1`, which an identifier of sixteen bits cannot hold.

* `Call.perform` is one call of a client, with the identifiers held before and after it;
  `Accounts.perform` keeps the accounts over any sequence of calls that does not halt.
* `Accounts.available_add_length`: the identifiers still available and those held make up
  `max + 1`.
* `Accounts.alloc_eq_error_iff`: the allocator refuses a request exactly when every identifier
  `0 … max` is held, which is when none is available (`alloc_eq_error_iff_available`).
* `Accounts.free_eq_error_iff`: giving back an identifier halts exactly when it is not held, and
  the halt names one of the three broken contracts (`fault_of_free_eq_error`).

Main statement: `IdAllocator.held_of_perform`.
-/

namespace Paging

namespace IdAllocator

/-! ## Runs of identifiers -/

/-- The identifiers `0 … k - 1`, in increasing order. -/
def idRun (k : Nat) : List UInt16 :=
  (List.range k).map Nat.toUInt16

theorem toNat_toUInt16 {k : Nat} (hk : k < UInt16.size) : k.toUInt16.toNat = k := by
  rw [Nat.toUInt16_eq, UInt16.toNat_ofNat']
  exact Nat.mod_eq_of_lt hk

@[simp] theorem length_idRun (k : Nat) : (idRun k).length = k := by
  simp [idRun]

theorem idRun_succ (k : Nat) : idRun (k + 1) = idRun k ++ [k.toUInt16] := by
  simp [idRun, List.range_succ]

theorem mem_idRun {k : Nat} (hk : k ≤ UInt16.size) {id : UInt16} :
    id ∈ idRun k ↔ id.toNat < k := by
  simp only [idRun, List.mem_map, List.mem_range]
  constructor
  · rintro ⟨i, hi, rfl⟩
    rw [toNat_toUInt16 (by omega)]
    exact hi
  · intro hid
    refine ⟨id.toNat, hid, UInt16.toNat_inj.1 ?_⟩
    exact toNat_toUInt16 id.toNat_lt

theorem nodup_idRun {k : Nat} (hk : k ≤ UInt16.size) : (idRun k).Nodup := by
  refine List.pairwise_map.2 (List.pairwise_lt_range.imp_of_mem ?_)
  intro i j hi hj hij heq
  have := congrArg UInt16.toNat heq
  rw [toNat_toUInt16 (by have := List.mem_range.1 hi; omega),
    toNat_toUInt16 (by have := List.mem_range.1 hj; omega)] at this
  omega

/-- The number of identifiers issued so far: those below the watermark, and the maximum once the
allocator is exhausted. -/
def issuedCount (a : IdAllocator) : Nat :=
  a.next.toNat + if a.exhausted then 1 else 0

/-! ## Calls and the identifiers they leave held -/

/-- A call that a client makes to an identifier allocator. -/
inductive Call where
  /-- A request for an identifier. -/
  | alloc
  /-- An identifier given back. -/
  | free (id : UInt16)
  deriving DecidableEq, Repr

/-- One call, on the allocator and on the identifiers its clients hold: an identifier handed out
joins them, one given back leaves them, and a refused request changes neither. A call that breaks
the allocator's contract halts. -/
def Call.perform : Call → IdAllocator × List UInt16 → Except Halt (IdAllocator × List UInt16)
  | .alloc, (a, held) =>
    match a.alloc with
    | .ok (id, a') => .ok (a', held ++ [id])
    | .error _ => .ok (a, held)
  | .free id, (a, held) => (a.free id).map fun a' => (a', held.erase id)

/-- The calls in order; the first halt ends the run. -/
def perform (calls : List Call) (s : IdAllocator × List UInt16) :
    Except Halt (IdAllocator × List UInt16) :=
  calls.foldlM (fun s c => c.perform s) s

/-! ## What each operation does -/

theorem alloc_eq_ok {a a' : IdAllocator} {id : UInt16} (h : a.alloc = .ok (id, a')) :
    (∃ rest, a.recycled = id :: rest ∧ a' = { a with recycled := rest }) ∨
      (a.recycled = [] ∧ a.exhausted = false ∧ a.next = a.max ∧ id = a.max ∧
        a' = { a with exhausted := true }) ∨
      (a.recycled = [] ∧ a.exhausted = false ∧ a.next ≠ a.max ∧ id = a.next ∧
        a' = { a with next := a.next + 1 }) := by
  unfold alloc at h
  split at h
  · rename_i p rest hr
    cases h
    exact .inl ⟨rest, hr, rfl⟩
  · rename_i hr
    split at h
    · cases h
    · rename_i hx
      split at h
      · rename_i hn
        cases h
        exact .inr (.inl ⟨hr, Bool.eq_false_iff.2 hx, hn, rfl, rfl⟩)
      · rename_i hn
        cases h
        exact .inr (.inr ⟨hr, Bool.eq_false_iff.2 hx, hn, rfl, rfl⟩)

/-- The allocator refuses a request only when nothing is recycled and the maximum is handed out,
and then only because the identifiers are exhausted. -/
theorem alloc_eq_error {a : IdAllocator} {f : Fault} (h : a.alloc = .error f) :
    a.recycled = [] ∧ a.exhausted = true ∧ f = .idsExhausted := by
  unfold alloc at h
  split at h
  · cases h
  · rename_i hr
    split at h
    · rename_i hx
      cases h
      exact ⟨hr, hx, rfl⟩
    · split at h <;> cases h

theorem alloc_of_exhausted {a : IdAllocator} (hr : a.recycled = []) (hx : a.exhausted = true) :
    a.alloc = .error .idsExhausted := by
  simp [alloc, hr, hx]

/-- No identifier is available exactly when the allocator refuses a request. -/
theorem alloc_eq_error_iff_available (a : IdAllocator) :
    a.alloc = .error .idsExhausted ↔ a.available = 0 := by
  constructor
  · intro h
    obtain ⟨hr, hx, -⟩ := alloc_eq_error h
    simp [available, hr, hx]
  · intro h
    unfold available at h
    cases hx : a.exhausted
    · simp [hx] at h
    · simp only [hx, if_true, Nat.add_zero, List.length_eq_zero_iff] at h
      exact alloc_of_exhausted h hx

theorem free_eq_ok {a a' : IdAllocator} {id : UInt16} (h : a.free id = .ok a') :
    id ≤ a.max ∧ (a.exhausted = true ∨ id < a.next) ∧ id ∉ a.recycled ∧
      a' = { a with recycled := id :: a.recycled } := by
  unfold free at h
  split at h
  · cases h
  · rename_i habove
    split at h
    · cases h
    · rename_i hlow
      split at h
      · cases h
      · rename_i hnot
        cases h
        simp only [Bool.and_eq_true, Bool.not_eq_eq_eq_not, Bool.not_true, decide_eq_true_eq,
          not_and, UInt16.not_le] at hlow
        simp only [List.contains_iff_mem] at hnot
        refine ⟨UInt16.not_lt.1 habove, ?_, hnot, rfl⟩
        cases hx : a.exhausted
        · exact .inr (hlow hx)
        · exact .inl rfl

/-- A return that breaks the contract names an identifier above the maximum, one never handed
out, or one already free. -/
theorem fault_of_free_eq_error {a : IdAllocator} {id : UInt16} {h : Halt}
    (he : a.free id = .error h) :
    h.fault = some .idAboveMax ∨ h.fault = some .idNotAllocated ∨
      h.fault = some .idAlreadyFreed := by
  unfold free at he
  split at he
  · cases he
    exact .inl rfl
  · split at he
    · cases he
      exact .inr (.inl rfl)
    · split at he
      · cases he
        exact .inr (.inr rfl)
      · cases he

/-! ## The accounts -/

/-- The identifiers issued so far are the recycled ones and the held ones, each once; the
watermark stays at or below the maximum, and stops there once the maximum is handed out. -/
structure Accounts (a : IdAllocator) (held : List UInt16) : Prop where
  next_le : a.next ≤ a.max
  next_of_exhausted : a.exhausted = true → a.next = a.max
  perm : (a.recycled ++ held).Perm (idRun a.issuedCount)

namespace Accounts

variable {a : IdAllocator} {held : List UInt16}

theorem issuedCount_le (h : Accounts a held) : a.issuedCount ≤ a.max.toNat + 1 := by
  have hle := UInt16.le_iff_toNat_le.1 h.next_le
  unfold issuedCount
  cases hx : a.exhausted
  · simp only [Bool.false_eq_true, if_false]
    omega
  · rw [h.next_of_exhausted hx]
    simp

theorem issuedCount_le_size (h : Accounts a held) : a.issuedCount ≤ UInt16.size := by
  have := h.issuedCount_le
  have := a.max.toNat_lt
  simp only [UInt16.size]
  omega

theorem nodup (h : Accounts a held) : (a.recycled ++ held).Nodup :=
  h.perm.nodup_iff.2 (nodup_idRun h.issuedCount_le_size)

theorem mem_iff (h : Accounts a held) {id : UInt16} :
    id ∈ a.recycled ++ held ↔ id.toNat < a.issuedCount := by
  rw [h.perm.mem_iff, mem_idRun h.issuedCount_le_size]

theorem length_eq (h : Accounts a held) : a.recycled.length + held.length = a.issuedCount := by
  rw [← List.length_append, h.perm.length_eq, length_idRun]

/-- A new allocator has handed out nothing. -/
theorem new (max : UInt16) : Accounts (IdAllocator.new max) [] where
  next_le := UInt16.le_iff_toNat_le.2 (by simp [IdAllocator.new])
  next_of_exhausted h := by simp [IdAllocator.new] at h
  perm := by simp [IdAllocator.new, issuedCount, idRun]

/-- One identifier handed out: popped from the recycled stack, the maximum, which exhausts the
allocator, or the watermark, which moves on. -/
theorem alloc (h : Accounts a held) {id : UInt16} {a' : IdAllocator}
    (ha : a.alloc = .ok (id, a')) : Accounts a' (held ++ [id]) := by
  rcases alloc_eq_ok ha with ⟨rest, hr, rfl⟩ | ⟨hr, hx, hn, rfl, rfl⟩ | ⟨hr, hx, hn, rfl, rfl⟩
  · refine ⟨h.next_le, h.next_of_exhausted, List.Perm.trans ?_ h.perm⟩
    rw [hr, ← List.append_assoc]
    exact List.perm_append_singleton _ _
  · refine ⟨h.next_le, fun _ => hn, ?_⟩
    have hperm := h.perm
    simp only [hr, hx, issuedCount, List.nil_append, Bool.false_eq_true, if_false,
      Nat.add_zero] at hperm
    show (a.recycled ++ (held ++ [a.max])).Perm
      (idRun (a.next.toNat + if true = true then 1 else 0))
    rw [hr, List.nil_append, if_pos rfl, idRun_succ, ← hn, Nat.toUInt16_eq, UInt16.ofNat_toNat]
    exact hperm.append_right _
  · have hlt : a.next.toNat < a.max.toNat :=
      Nat.lt_of_le_of_ne (UInt16.le_iff_toNat_le.1 h.next_le) (fun e => hn (UInt16.toNat_inj.1 e))
    have hsucc : (a.next + 1).toNat = a.next.toNat + 1 := by
      rw [UInt16.toNat_add]
      have := a.max.toNat_lt
      exact Nat.mod_eq_of_lt (by simp; omega)
    refine ⟨?_, fun h' => by simp [hx] at h', ?_⟩
    · show a.next + 1 ≤ a.max
      exact UInt16.le_iff_toNat_le.2 (by rw [hsucc]; omega)
    have hperm := h.perm
    simp only [hr, hx, issuedCount, List.nil_append, Bool.false_eq_true, if_false,
      Nat.add_zero] at hperm
    show (a.recycled ++ (held ++ [a.next])).Perm
      (idRun ((a.next + 1).toNat + if a.exhausted = true then 1 else 0))
    rw [hr, List.nil_append, hx, if_neg Bool.false_ne_true, Nat.add_zero, hsucc, idRun_succ,
      Nat.toUInt16_eq, UInt16.ofNat_toNat]
    exact hperm.append_right _

/-- An identifier given back was held, and leaves the held identifiers for the recycled stack. -/
theorem free (h : Accounts a held) {id : UInt16} {a' : IdAllocator} (ha : a.free id = .ok a') :
    id ∈ held ∧ Accounts a' (held.erase id) := by
  obtain ⟨hmax, hlow, hnot, rfl⟩ := free_eq_ok ha
  have hissued : id.toNat < a.issuedCount := by
    have := UInt16.le_iff_toNat_le.1 hmax
    unfold issuedCount
    rcases hlow with hx | hlt
    · rw [hx, h.next_of_exhausted hx]
      simp only [if_true]
      omega
    · have := UInt16.lt_iff_toNat_lt.1 hlt
      omega
  have hheld : id ∈ held := by
    rcases List.mem_append.1 (h.mem_iff.2 hissued) with hr | hh
    · exact absurd hr hnot
    · exact hh
  refine ⟨hheld, h.next_le, h.next_of_exhausted, List.Perm.trans ?_ h.perm⟩
  show (id :: a.recycled ++ held.erase id).Perm (a.recycled ++ held)
  exact List.perm_middle.symm.trans ((List.perm_cons_erase hheld).symm.append_left _)

/-- One call that does not halt keeps the accounts and the maximum. -/
theorem perform_call (h : Accounts a held) {c : Call} {s : IdAllocator × List UInt16}
    (hc : c.perform (a, held) = .ok s) : Accounts s.1 s.2 ∧ s.1.max = a.max := by
  cases c with
  | alloc =>
    simp only [Call.perform] at hc
    split at hc
    · rename_i id a' ha
      cases hc
      refine ⟨h.alloc ha, ?_⟩
      rcases alloc_eq_ok ha with ⟨_, _, rfl⟩ | ⟨_, _, _, _, rfl⟩ | ⟨_, _, _, _, rfl⟩ <;> rfl
    · cases hc
      exact ⟨h, rfl⟩
  | free id =>
    simp only [Call.perform] at hc
    cases ha : a.free id with
    | error e => simp [ha, Except.map] at hc
    | ok a' =>
      simp only [ha, Except.map, Except.ok.injEq] at hc
      subst hc
      obtain ⟨-, -, -, rfl⟩ := free_eq_ok ha
      exact ⟨(h.free ha).2, rfl⟩

/-- Any sequence of calls that does not halt keeps the accounts and the maximum. -/
theorem perform (h : Accounts a held) {calls : List Call} {s : IdAllocator × List UInt16}
    (hc : IdAllocator.perform calls (a, held) = .ok s) : Accounts s.1 s.2 ∧ s.1.max = a.max := by
  induction calls generalizing a held with
  | nil =>
    cases hc
    exact ⟨h, rfl⟩
  | cons c rest ih =>
    simp only [IdAllocator.perform, List.foldlM_cons] at hc
    cases hstep : c.perform (a, held) with
    | error e => simp [hstep] at hc; cases hc
    | ok s₁ =>
      simp only [hstep] at hc
      obtain ⟨h₁, hm₁⟩ := h.perform_call hstep
      obtain ⟨h₂, hm₂⟩ := ih h₁ hc
      exact ⟨h₂, hm₂.trans hm₁⟩

/-! ### What the accounts give -/

theorem nodup_held (h : Accounts a held) : held.Nodup :=
  (List.nodup_append.1 h.nodup).2.1

theorem le_max_of_mem (h : Accounts a held) {id : UInt16} (hid : id ∈ held) : id ≤ a.max := by
  have := h.mem_iff.1 (List.mem_append_right _ hid)
  have := h.issuedCount_le
  exact UInt16.le_iff_toNat_le.2 (by omega)

/-- The identifiers still available and those held make up `max + 1`. -/
theorem available_add_length (h : Accounts a held) :
    a.available + held.length = a.max.toNat + 1 := by
  have hlen := h.length_eq
  have hle := UInt16.le_iff_toNat_le.1 h.next_le
  unfold issuedCount at hlen
  unfold available
  cases hx : a.exhausted
  · simp only [hx, Bool.false_eq_true, if_false, Nat.add_zero] at hlen ⊢
    rw [UInt16.toNat_sub_of_le _ _ h.next_le]
    omega
  · simp only [hx, if_true] at hlen ⊢
    rw [h.next_of_exhausted hx] at hlen
    omega

/-- An identifier handed out is not held. -/
theorem alloc_not_mem (h : Accounts a held) {id : UInt16} {a' : IdAllocator}
    (ha : a.alloc = .ok (id, a')) : id ∉ held := by
  have hnd := (h.alloc ha).nodup
  rw [← List.append_assoc, List.nodup_append] at hnd
  exact fun hp => hnd.2.2 id (List.mem_append_right _ hp) id (List.mem_singleton_self _) rfl

/-- The allocator refuses a request exactly when every identifier `0 … max` is held. -/
theorem alloc_eq_error_iff (h : Accounts a held) :
    a.alloc = .error .idsExhausted ↔ ∀ id : UInt16, id ∈ held ↔ id ≤ a.max := by
  constructor
  · intro he id
    obtain ⟨hr, hx, -⟩ := alloc_eq_error he
    have hmem : id ∈ a.recycled ++ held ↔ id.toNat < a.issuedCount := h.mem_iff
    rw [hr, List.nil_append] at hmem
    rw [hmem, UInt16.le_iff_toNat_le]
    unfold issuedCount
    rw [hx, h.next_of_exhausted hx, if_pos rfl]
    omega
  · intro hall
    have hnd := List.nodup_append.1 h.nodup
    -- nothing is recycled: a recycled identifier would be held too
    have hr : a.recycled = [] := by
      refine List.eq_nil_iff_forall_not_mem.2 fun id hid => ?_
      have hle : id ≤ a.max := by
        have := h.mem_iff.1 (List.mem_append_left _ hid)
        have := h.issuedCount_le
        exact UInt16.le_iff_toNat_le.2 (by omega)
      exact hnd.2.2 id hid id ((hall id).2 hle) rfl
    -- the watermark is issued, so the maximum has been handed out
    have hx : a.exhausted = true := by
      cases hx : a.exhausted
      · have hw := h.mem_iff.1 (List.mem_append_right _ ((hall a.next).2 h.next_le))
        simp [issuedCount, hx] at hw
      · rfl
    exact alloc_of_exhausted hr hx

/-- A held identifier given back is taken back onto the recycled stack. -/
theorem free_of_mem (h : Accounts a held) {id : UInt16} (hid : id ∈ held) :
    a.free id = .ok { a with recycled := id :: a.recycled } := by
  have hissued := h.mem_iff.1 (List.mem_append_right _ hid)
  have hnot : id ∉ a.recycled := fun hr =>
    (List.nodup_append.1 h.nodup).2.2 id hr id hid rfl
  have hmax := h.le_max_of_mem hid
  have hlow : a.exhausted = true ∨ id < a.next := by
    cases hx : a.exhausted
    · simp only [issuedCount, hx, Bool.false_eq_true, if_false, Nat.add_zero] at hissued
      exact .inr (UInt16.lt_iff_toNat_lt.2 hissued)
    · exact .inl rfl
  have habove : ¬ id > a.max := UInt16.not_lt.2 hmax
  unfold IdAllocator.free
  rw [if_neg habove]
  rcases hlow with hx | hlt
  · simp [hx, hnot]
  · simp [UInt16.not_le.2 hlt, hnot]

/-- Giving back an identifier halts exactly when it is not held. -/
theorem free_eq_error_iff (h : Accounts a held) (id : UInt16) :
    (∃ e, a.free id = .error e) ↔ id ∉ held := by
  constructor
  · rintro ⟨e, he⟩ hid
    rw [h.free_of_mem hid] at he
    cases he
  · intro hid
    cases hf : a.free id with
    | error e => exact ⟨e, rfl⟩
    | ok a' => exact absurd (h.free hf).1 hid

end Accounts

/-! ## The main statement -/

/-- After any sequence of calls on a new allocator of `0 … max` in which no return halts, the
identifiers held have no repeats (so none was handed out while held) and lie in `0 … max`; with
those still available they make up `max + 1`. The next request hands out an identifier that is not
held, and is refused, with the identifiers exhausted, exactly when every identifier `0 … max` is
held, which is when none is available. Giving an identifier back halts, naming one of the three
broken contracts, exactly when it is not held; a held one is taken back, after which the others
are still held. -/
theorem held_of_perform (max : UInt16) (calls : List Call) {a : IdAllocator}
    {held : List UInt16} (h : perform calls (IdAllocator.new max, []) = .ok (a, held)) :
    held.Nodup ∧ (∀ id ∈ held, id ≤ max) ∧ a.available + held.length = max.toNat + 1 ∧
      (∀ id a', a.alloc = .ok (id, a') → id ∉ held) ∧
      (∀ f, a.alloc = .error f → f = .idsExhausted) ∧
      (a.alloc = .error .idsExhausted ↔ ∀ id : UInt16, id ∈ held ↔ id ≤ max) ∧
      (a.alloc = .error .idsExhausted ↔ a.available = 0) ∧
      (∀ id, (∃ e, a.free id = .error e ∧ (e.fault = some .idAboveMax ∨
        e.fault = some .idNotAllocated ∨ e.fault = some .idAlreadyFreed)) ↔ id ∉ held) ∧
      (∀ id ∈ held, ∃ a', a.free id = .ok a' ∧ Accounts a' (held.erase id) ∧
        ∀ id', id' ∈ held.erase id ↔ id' ∈ held ∧ id' ≠ id) := by
  obtain ⟨hacc, hmax⟩ := (Accounts.new max).perform h
  have hm : a.max = max := hmax
  refine ⟨hacc.nodup_held, fun id hid => hm ▸ hacc.le_max_of_mem hid, hm ▸ hacc.available_add_length,
    fun id a' ha => hacc.alloc_not_mem ha, fun f hf => (alloc_eq_error hf).2.2,
    hm ▸ hacc.alloc_eq_error_iff, alloc_eq_error_iff_available a, fun id => ?_, fun id hid => ?_⟩
  · rw [← hacc.free_eq_error_iff id]
    exact ⟨fun ⟨e, he, _⟩ => ⟨e, he⟩, fun ⟨e, he⟩ => ⟨e, he, fault_of_free_eq_error he⟩⟩
  · have hf := hacc.free_of_mem hid
    refine ⟨_, hf, (hacc.free hf).2, fun id' => ?_⟩
    rw [hacc.nodup_held.mem_erase_iff, and_comm]

/-- Identifiers `0 … 2`: all three handed out, the middle one given back and handed out again, and
a fourth request refused. -/
theorem held_after_exhausting_three :
    perform [.alloc, .alloc, .alloc, .free 1, .alloc, .alloc] (IdAllocator.new 2, []) =
      .ok (⟨2, 2, true, []⟩, [0, 2, 1]) ∧
    (([0, 2, 1] : List UInt16).Nodup ∧ (∀ id ∈ ([0, 2, 1] : List UInt16), id ≤ 2) ∧
      (⟨2, 2, true, []⟩ : IdAllocator).available + ([0, 2, 1] : List UInt16).length =
        (2 : UInt16).toNat + 1 ∧
      (∀ id a', (⟨2, 2, true, []⟩ : IdAllocator).alloc = .ok (id, a') →
        id ∉ ([0, 2, 1] : List UInt16)) ∧
      (∀ f, (⟨2, 2, true, []⟩ : IdAllocator).alloc = .error f → f = .idsExhausted) ∧
      ((⟨2, 2, true, []⟩ : IdAllocator).alloc = .error .idsExhausted ↔
        ∀ id : UInt16, id ∈ ([0, 2, 1] : List UInt16) ↔ id ≤ 2) ∧
      ((⟨2, 2, true, []⟩ : IdAllocator).alloc = .error .idsExhausted ↔
        (⟨2, 2, true, []⟩ : IdAllocator).available = 0) ∧
      (∀ id, (∃ e, (⟨2, 2, true, []⟩ : IdAllocator).free id = .error e ∧
        (e.fault = some .idAboveMax ∨ e.fault = some .idNotAllocated ∨
          e.fault = some .idAlreadyFreed)) ↔ id ∉ ([0, 2, 1] : List UInt16)) ∧
      (∀ id ∈ ([0, 2, 1] : List UInt16), ∃ a', (⟨2, 2, true, []⟩ : IdAllocator).free id = .ok a' ∧
        Accounts a' (([0, 2, 1] : List UInt16).erase id) ∧
        ∀ id', id' ∈ ([0, 2, 1] : List UInt16).erase id ↔
          id' ∈ ([0, 2, 1] : List UInt16) ∧ id' ≠ id)) := by
  have h : perform [.alloc, .alloc, .alloc, .free 1, .alloc, .alloc] (IdAllocator.new 2, []) =
      .ok (⟨2, 2, true, []⟩, [0, 2, 1]) := rfl
  exact ⟨h, held_of_perform _ _ h⟩

end IdAllocator

end Paging
