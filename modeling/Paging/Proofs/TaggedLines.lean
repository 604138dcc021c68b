import Mathlib
import Paging.Log.Prefix
/-!
# Tagged lines through a sink with a limit

A line tagger writes text with a tag before every line into a sink that takes at most a given
number of bytes in all. Whatever the text and however it is cut into writes, the sink ends up with
the first bytes of one tagged text, and each write says exactly what happened to it:

* `markLines` is the tagged text with each byte marked as text or tag, and `tagLines` its bytes: the
  tag goes before the first byte and before every byte after a line feed, and nowhere else;
* `Puts s X res s'` says that the sink `s` was given the marked bytes `X` as far as they fit,
  answering `res` and becoming `s'`. Such puts compose (`Puts.append`), and a refused put ends the
  whole (`Puts.append_of_refused`);
* one write puts its bytes with their tags (`LineTagger.write_writes`), by induction over its lines:
  the tag stage and then the line stage (`LineTagger.write_cons_writes`);
* `Tracks` is the invariant of a run of writes: the sink holds the first bytes of the tagged text
  so far, and while the sink has room the tagger knows whether a line is open. A refusal can leave
  the tagger wrong about the line, but only once the sink is full, when it no longer matters.

Main statement: `LineTagger.tagged_writes`.
-/

namespace Paging

/-! ## Limits -/

/-- The first `n` items of a list when there is a limit `n`, and all of them when there is none. -/
def takeUpTo {α : Type} : Option Nat → List α → List α
  | none, l => l
  | some n, l => l.take n

/-- `n` passes the limit, if there is one. -/
def Overruns : Option Nat → Nat → Prop
  | none, _ => False
  | some l, n => l < n

section Limits

variable {α β : Type}

@[simp] theorem takeUpTo_none (l : List α) : takeUpTo none l = l := rfl

@[simp] theorem takeUpTo_some (n : Nat) (l : List α) : takeUpTo (some n) l = l.take n := rfl

@[simp] theorem overruns_none (n : Nat) : ¬Overruns none n := id

@[simp] theorem overruns_some (l n : Nat) : Overruns (some l) n ↔ l < n := Iff.rfl

@[simp] theorem takeUpTo_nil (r : Option Nat) : takeUpTo r ([] : List α) = [] := by
  cases r <;> simp

theorem not_overruns_zero (r : Option Nat) : ¬Overruns r 0 := by
  cases r <;> simp

theorem takeUpTo_append (r : Option Nat) (u v : List α) :
    takeUpTo r (u ++ v) = takeUpTo r u ++ takeUpTo (r.map (· - u.length)) v := by
  cases r with
  | none => rfl
  | some n => exact List.take_append

theorem takeUpTo_map (r : Option Nat) (f : α → β) (l : List α) :
    takeUpTo r (l.map f) = (takeUpTo r l).map f := by
  cases r with
  | none => rfl
  | some n => exact List.map_take.symm

theorem takeUpTo_of_not_overruns {r : Option Nat} {l : List α} (h : ¬Overruns r l.length) :
    takeUpTo r l = l := by
  cases r with
  | none => rfl
  | some n => exact List.take_of_length_le (by simpa using h)

theorem takeUpTo_append_of_overruns {r : Option Nat} {u : List α} (h : Overruns r u.length)
    (v : List α) : takeUpTo r (u ++ v) = takeUpTo r u := by
  cases r with
  | none => exact absurd h id
  | some n => exact List.take_append_of_le_length (by simp at h; omega)

theorem overruns_add (r : Option Nat) (m n : Nat) :
    Overruns r (m + n) ↔ Overruns r m ∨ Overruns (r.map (· - m)) n := by
  cases r with
  | none => simp
  | some l => simp; omega

end Limits

/-! ## Sinks with a limit -/

namespace BoundedSink

/-- How many more bytes the sink takes, if it has a limit. -/
def room (s : BoundedSink) : Option Nat :=
  s.limit.map (· - s.taken.length)

/-- The sink takes what fits of a chunk, and refuses the chunk exactly when it does not fit. -/
theorem put_eq (s : BoundedSink) (c : List UInt8) :
    s.put c = (((takeUpTo s.room c).length,
        if (takeUpTo s.room c).length < c.length then some .full else none),
      { s with taken := s.taken ++ takeUpTo s.room c,
               chunks := s.chunks.push (takeUpTo s.room c) }) := by
  unfold put room
  cases hl : s.limit with
  | none => simp
  | some l =>
    simp only [Option.map_some, takeUpTo_some]
    split
    · rename_i hfit
      simp [List.take_of_length_le hfit]
    · rename_i hover
      have hlen : (c.take (l - s.taken.length)).length = l - s.taken.length := by
        simp; omega
      simp only [hlen, if_pos (show l - s.taken.length < c.length by omega)]

end BoundedSink

/-! ## Tagged text -/

/-- The text with `tag` put before every byte that starts a line, each byte marked `true` when it
comes from the text and `false` when it comes from a tag. `fresh` says whether the first byte
starts a line; a byte after a line feed does. -/
def markLines (tag : List UInt8) : Bool → List UInt8 → List (UInt8 × Bool)
  | _, [] => []
  | fresh, b :: bs =>
    (if fresh then tag.map (·, false) else []) ++ (b, true) :: markLines tag (b == 10) bs

/-- Whether the byte after `s` starts a line, when the first byte of `s` does exactly if
`fresh`. -/
def endsLine (fresh : Bool) : List UInt8 → Bool
  | [] => fresh
  | b :: bs => endsLine (b == 10) bs

/-- The text with `tag` before the first byte and before every byte after a line feed. -/
def tagLines (tag text : List UInt8) : List UInt8 :=
  (markLines tag true text).map Prod.fst

theorem markLines_append (tag : List UInt8) (fresh : Bool) (u v : List UInt8) :
    markLines tag fresh (u ++ v) = markLines tag fresh u ++ markLines tag (endsLine fresh u) v := by
  induction u generalizing fresh with
  | nil => rfl
  | cons b bs ih => simp [markLines, endsLine, ih]

theorem endsLine_append (fresh : Bool) (u v : List UInt8) :
    endsLine fresh (u ++ v) = endsLine (endsLine fresh u) v := by
  induction u generalizing fresh with
  | nil => rfl
  | cons b bs ih => exact ih _

/-- Every byte of the text is marked once. -/
theorem countP_markLines (tag : List UInt8) (fresh : Bool) (text : List UInt8) :
    (markLines tag fresh text).countP (·.2) = text.length := by
  induction text generalizing fresh with
  | nil => rfl
  | cons b bs ih =>
    simp only [markLines, List.countP_append, List.countP_cons, ih, List.length_cons]
    split <;> simp

/-- A line that starts gets the tag, and then its bytes as inside a line. -/
theorem markLines_true_cons (tag : List UInt8) (b : UInt8) (bs : List UInt8) :
    markLines tag true (b :: bs) = tag.map (·, false) ++ markLines tag false (b :: bs) := by
  simp [markLines]

theorem markLines_eq_nil {tag : List UInt8} {fresh : Bool} {text : List UInt8} :
    markLines tag fresh text = [] ↔ text = [] := by
  cases text with
  | nil => simp [markLines]
  | cons b bs => simp [markLines]

theorem length_markLines_pos_iff {tag : List UInt8} {fresh : Bool} {text : List UInt8} :
    0 < (markLines tag fresh text).length ↔ text ≠ [] := by
  rw [List.length_pos_iff, ne_eq, markLines_eq_nil]

/-- Inside a line no tag is put: the bytes up to the first line feed come marked as text, and the
rest starts a line exactly when the line ends with a line feed. -/
theorem markLines_splitLine (tag : List UInt8) (text : List UInt8) :
    markLines tag false text = (splitLine text).1.map (·, true) ++
      markLines tag ((splitLine text).1.getLast? == some 10) (splitLine text).2 := by
  induction text with
  | nil => rfl
  | cons b bs ih =>
    by_cases hb : b = 10
    · simp [markLines, splitLine, hb]
    · -- a byte other than a line feed keeps the line open, and is not its last byte
      have hfresh : (b == 10) = false := by simpa using hb
      have hlast : ((b :: (splitLine bs).1).getLast? == some 10) =
          ((splitLine bs).1.getLast? == some 10) := by
        cases (splitLine bs).1 with
        | nil => simpa using hb
        | cons c cs => simp
      simp only [markLines, splitLine, hb, if_false, hfresh, ih, hlast]
      simp

theorem splitLine_append (text : List UInt8) : (splitLine text).1 ++ (splitLine text).2 = text := by
  induction text with
  | nil => rfl
  | cons b bs ih =>
    by_cases hb : b = 10
    · simp [splitLine, hb]
    · simp [splitLine, hb, ih]

theorem splitLine_fst_ne_nil {b : UInt8} {bs : List UInt8} : (splitLine (b :: bs)).1 ≠ [] := by
  by_cases hb : b = 10 <;> simp [splitLine, hb]

/-- After a byte, whether a line starts depends only on the last byte. -/
theorem endsLine_of_ne_nil (fresh : Bool) {text : List UInt8} (h : text ≠ []) :
    endsLine fresh text = (text.getLast? == some 10) := by
  induction text generalizing fresh with
  | nil => exact absurd rfl h
  | cons b bs ih =>
    cases bs with
    | nil => simp [endsLine]
    | cons c cs => rw [endsLine, ih _ (List.cons_ne_nil c cs), List.getLast?_cons_cons]

theorem length_tagLines (tag text : List UInt8) :
    (tagLines tag text).length = (markLines tag true text).length :=
  List.length_map _

/-! ## Putting marked bytes -/

/-- Putting the marked bytes `X` into the sink `s` answers `res` and leaves `s'`: the sink takes
what fits of the bytes, the count is of the text bytes it took, and the bytes are refused exactly
when they do not all fit. -/
structure Puts (s : BoundedSink) (X : List (UInt8 × Bool)) (res : Nat × Option SinkRefusal)
    (s' : BoundedSink) : Prop where
  count : res.1 = (takeUpTo s.room X).countP (·.2)
  refused : res.2.isSome ↔ Overruns s.room X.length
  taken : s'.taken = s.taken ++ (takeUpTo s.room X).map Prod.fst
  limit : s'.limit = s.limit

theorem length_takeUpTo_lt_iff {α : Type} (r : Option Nat) (l : List α) :
    (takeUpTo r l).length < l.length ↔ Overruns r l.length := by
  cases r with
  | none => simp
  | some n =>
    simp only [takeUpTo_some, List.length_take, overruns_some]
    omega

namespace Puts

variable {s s₁ s₂ : BoundedSink} {X Y : List (UInt8 × Bool)}

theorem nil (s : BoundedSink) : Puts s [] (0, none) s where
  count := by cases s.room <;> simp
  refused := by cases s.room <;> simp
  taken := by cases s.room <;> simp
  limit := rfl

theorem room_eq {res : Nat × Option SinkRefusal} (h : Puts s X res s₁) :
    s₁.room = s.room.map (· - (takeUpTo s.room X).length) := by
  simp only [BoundedSink.room, h.limit, h.taken, List.length_append, List.length_map,
    Option.map_map]
  cases s.limit with
  | none => rfl
  | some l => simp only [Option.map_some, Function.comp, Nat.sub_sub]

/-- A chunk that the sink is given, its bytes marked `m`: they count only as text. -/
theorem put_marked (s : BoundedSink) (c : List UInt8) (m : Bool) :
    Puts s (c.map (·, m)) (if m then (s.put c).1.1 else 0, (s.put c).1.2) (s.put c).2 := by
  rw [BoundedSink.put_eq]
  refine ⟨?_, ?_, ?_, rfl⟩
  · cases m <;> simp [takeUpTo_map, List.countP_map, Function.comp_def]
  · simp only [List.length_map, Option.isSome_ite, ← length_takeUpTo_lt_iff]
  · simp [takeUpTo_map, Function.comp_def]

/-- A chunk of text that the sink is given. -/
theorem put_text (s : BoundedSink) (c : List UInt8) :
    Puts s (c.map (·, true)) (s.put c).1 (s.put c).2 :=
  put_marked s c true

/-- A tag that the sink is given: none of its bytes count. -/
theorem put_tag (s : BoundedSink) (c : List UInt8) :
    Puts s (c.map (·, false)) (0, (s.put c).1.2) (s.put c).2 :=
  put_marked s c false

/-- Bytes taken whole, then more bytes. -/
theorem append {n m : Nat} {e : Option SinkRefusal} (h₁ : Puts s X (n, none) s₁)
    (h₂ : Puts s₁ Y (m, e) s₂) : Puts s (X ++ Y) (n + m, e) s₂ := by
  have hfit : ¬Overruns s.room X.length := fun ho => by simpa using h₁.refused.2 ho
  have hX : takeUpTo s.room X = X := takeUpTo_of_not_overruns hfit
  have hroom : s₁.room = s.room.map (· - X.length) := by rw [h₁.room_eq, hX]
  have hXY : takeUpTo s.room (X ++ Y) = X ++ takeUpTo s₁.room Y := by
    rw [takeUpTo_append, hX, hroom]
  refine ⟨?_, ?_, ?_, h₂.limit.trans h₁.limit⟩
  · rw [hXY, List.countP_append, ← hX, ← h₁.count, ← h₂.count]
  · rw [h₂.refused, List.length_append, overruns_add, hroom]
    exact ⟨Or.inr, fun h => h.resolve_left hfit⟩
  · rw [h₂.taken, h₁.taken, hXY, hX, List.map_append, List.append_assoc]

/-- Bytes refused: nothing after them is written, and the whole is refused. -/
theorem append_of_refused {n : Nat} {e : SinkRefusal} (h₁ : Puts s X (n, some e) s₁)
    (Y : List (UInt8 × Bool)) : Puts s (X ++ Y) (n, some e) s₁ := by
  have hover : Overruns s.room X.length := h₁.refused.1 rfl
  have hXY := takeUpTo_append_of_overruns hover Y
  refine ⟨by rw [hXY]; exact h₁.count, ?_, by rw [hXY]; exact h₁.taken, h₁.limit⟩
  simp only [Option.isSome_some, true_iff, List.length_append, overruns_add]
  exact Or.inl hover

/-- A refusal leaves the sink full. -/
theorem room_of_refused {n : Nat} {e : SinkRefusal} (h : Puts s X (n, some e) s₁) :
    s₁.room = some 0 := by
  have hover : Overruns s.room X.length := h.refused.1 rfl
  rw [h.room_eq]
  cases hr : s.room with
  | none => rw [hr] at hover; exact absurd hover id
  | some r =>
    rw [hr] at hover
    simp only [overruns_some] at hover
    simp [List.length_take]
    omega

end Puts

namespace LineTagger

variable {σ ε : Type}

/-- The tag of a line goes out unless a line is open: the refusal of the sink, if any, and the
sink after it. -/
def tagStage (put : σ → List UInt8 → (Nat × Option ε) × σ) (t : LineTagger) (sink : σ) :
    Option ε × σ :=
  if t.midLine then (none, sink)
  else
    let ((_, err), sink') := put sink t.tag
    (err, sink')

/-- The rest of a write once the tag of its first line is out: the bytes up to the first line
feed, then the rest. -/
def lineStage (put : σ → List UInt8 → (Nat × Option ε) × σ) (t : LineTagger) (sink : σ)
    (bytes : List UInt8) : (Nat × Option ε) × LineTagger × σ :=
  let t := { t with midLine := true }
  let parts := splitLine bytes
  let ((n, err), sink'') := put sink parts.1
  match err with
  | some err => ((n, some err), t, sink'')
  | none =>
    let t := if parts.1.getLast? = some 10 then { t with midLine := false } else t
    let ((m, err), t, sink''') := write put t sink'' parts.2
    ((n + m, err), t, sink''')

theorem write_cons (put : σ → List UInt8 → (Nat × Option ε) × σ) (t : LineTagger) (sink : σ)
    (b : UInt8) (bs : List UInt8) :
    t.write put sink (b :: bs) =
      match tagStage put t sink with
      | (some err, sink') => ((0, some err), t, sink')
      | (none, sink') => lineStage put t sink' (b :: bs) := by
  rw [write.eq_2]
  rfl

/-- What a write of `w` by `t` into `s` does, given its answer, tagger and sink `r`: it puts the
bytes of `w` with their tags into the sink, keeps the tag, and unless refused leaves a line open
exactly when `w` leaves one open. -/
def Writes (t : LineTagger) (s : BoundedSink) (w : List UInt8)
    (r : (Nat × Option SinkRefusal) × LineTagger × BoundedSink) : Prop :=
  Puts s (markLines t.tag (!t.midLine) w) r.1 r.2.2 ∧ r.2.1.tag = t.tag ∧
    (r.1.2 = none → r.2.1.midLine = !endsLine (!t.midLine) w)

/-- The line stage, given that writes of the rest do what they should. -/
theorem lineStage_writes (t : LineTagger) (s : BoundedSink) {bytes : List UInt8}
    (hne : bytes ≠ [])
    (ih : ∀ t' s',
      Writes t' s' (splitLine bytes).2 (t'.write BoundedSink.put s' (splitLine bytes).2)) :
    Writes { t with midLine := true } s bytes (lineStage BoundedSink.put t s bytes) := by
  have hsplit := markLines_splitLine t.tag bytes
  have hline := Puts.put_text s (splitLine bytes).1
  have hfirst : (splitLine bytes).1 ≠ [] := by
    obtain ⟨b, bs, rfl⟩ := List.exists_cons_of_ne_nil hne
    exact splitLine_fst_ne_nil
  unfold lineStage
  dsimp only
  generalize s.put (splitLine bytes).1 = p at hline
  obtain ⟨⟨n, e⟩, s₁⟩ := p
  cases e with
  | some err =>
    -- the line is refused, and nothing after it is written
    refine ⟨?_, rfl, fun h => by cases h⟩
    show Puts s (markLines t.tag false bytes) (n, some err) s₁
    rw [hsplit]
    exact hline.append_of_refused _
  | none =>
    dsimp only
    -- the tagger for the rest has the same tag, and a line starts there after a line feed
    set t₂ : LineTagger := if (splitLine bytes).1.getLast? = some 10 then { tag := t.tag }
      else { tag := t.tag, midLine := true } with ht₂
    have htag : t₂.tag = t.tag := by
      rw [ht₂]
      split <;> rfl
    have hfresh : (!t₂.midLine) = ((splitLine bytes).1.getLast? == some 10) := by
      rw [ht₂]
      split <;> simp_all
    obtain ⟨hputs, hkeep, hopen⟩ := ih t₂ s₁
    generalize write BoundedSink.put t₂ s₁ (splitLine bytes).2 = r at hputs hkeep hopen
    obtain ⟨⟨m, e'⟩, t₃, s₃⟩ := r
    rw [htag, hfresh] at hputs
    refine ⟨?_, hkeep.trans htag, fun he => ?_⟩
    · show Puts s (markLines t.tag false bytes) (n + m, e') s₃
      rw [hsplit]
      exact hline.append hputs
    · show t₃.midLine = !endsLine false bytes
      rw [hopen he, hfresh, ← endsLine_of_ne_nil false hfirst, ← endsLine_append, splitLine_append]

/-- A write of bytes, given that writes of the bytes after its first line do what they should. -/
theorem write_cons_writes (t : LineTagger) (s : BoundedSink) (b : UInt8) (bs : List UInt8)
    (hrest : ∀ t' s', Writes t' s' (splitLine (b :: bs)).2
      (t'.write BoundedSink.put s' (splitLine (b :: bs)).2)) :
    Writes t s (b :: bs) (t.write BoundedSink.put s (b :: bs)) := by
  rw [write_cons]
  unfold tagStage
  cases hm : t.midLine with
  | true =>
    -- a line is open: no tag
    have ht : ({ t with midLine := true } : LineTagger) = t := by
      cases t
      simp_all
    simp only [if_true]
    have := lineStage_writes t s (List.cons_ne_nil b bs) hrest
    rw [ht] at this
    exact this
  | false =>
    -- the tag goes out first, and counts for nothing
    have htagged := Puts.put_tag s t.tag
    simp only [Bool.false_eq_true, if_false]
    generalize s.put t.tag = p at htagged
    obtain ⟨⟨k₀, e⟩, s₁⟩ := p
    cases e with
    | some err =>
      dsimp only
      refine ⟨?_, rfl, fun h => by cases h⟩
      show Puts s (markLines t.tag (!t.midLine) (b :: bs)) (0, some err) s₁
      rw [hm, Bool.not_false, markLines_true_cons]
      exact htagged.append_of_refused _
    | none =>
      dsimp only
      obtain ⟨hputs, hkeep, hopen⟩ := lineStage_writes t s₁ (List.cons_ne_nil b bs) hrest
      generalize lineStage BoundedSink.put t s₁ (b :: bs) = r at hputs hkeep hopen
      obtain ⟨⟨n, e'⟩, t₃, s₃⟩ := r
      refine ⟨?_, hkeep, fun he => (hopen he).trans (by rw [hm]; rfl)⟩
      show Puts s (markLines t.tag (!t.midLine) (b :: bs)) (n, e') s₃
      rw [hm, Bool.not_false, markLines_true_cons, ← Nat.zero_add n]
      exact htagged.append hputs

/-- A write into a sink with a limit puts the bytes with their tags, as far as they fit. -/
theorem write_writes (t : LineTagger) (s : BoundedSink) (w : List UInt8) :
    Writes t s w (t.write BoundedSink.put s w) := by
  -- by induction on the length: a write goes on with the bytes after its first line
  induction hlen : w.length using Nat.strongRecOn generalizing t s w with
  | ind k ih =>
    cases w with
    | nil =>
      rw [write.eq_1]
      exact ⟨Puts.nil s, rfl, fun _ => by simp [endsLine]⟩
    | cons b bs =>
      exact write_cons_writes t s b bs fun t' s' =>
        ih _ (hlen ▸ length_splitLine_snd_lt b bs) t' s' _ rfl

/-! ## Runs of writes -/

/-- The writes in order, each answered; every write runs, also after a refused one. -/
def writeAll (put : σ → List UInt8 → (Nat × Option ε) × σ) (t : LineTagger) (sink : σ) :
    List (List UInt8) → List (Nat × Option ε) × LineTagger × σ
  | [] => ([], t, sink)
  | w :: ws =>
    let (r, t', sink') := t.write put sink w
    let (rs, t'', sink'') := writeAll put t' sink' ws
    (r :: rs, t'', sink'')

/-- The tagger and the sink after the text `W` was written: the sink holds the first `limit`
bytes of the tagged text, and while it has room the tagger knows whether a line is open. -/
structure Tracks (tag : List UInt8) (limit : Option Nat) (W : List UInt8) (t : LineTagger)
    (s : BoundedSink) : Prop where
  tag_eq : t.tag = tag
  limit_eq : s.limit = limit
  taken_eq : s.taken = takeUpTo limit (tagLines tag W)
  open_eq : s.room ≠ some 0 → t.midLine = !endsLine true W

/-- The write of `w` after the text `W` answered `res` and left the tagger `t'` and the sink `s'`
as it should: the tracking goes on with the new bytes, the write is refused exactly when it has
bytes and the tagged text passes the limit, and it counts the text bytes among the first ones that
it adds. -/
structure Steps (tag : List UInt8) (limit : Option Nat) (W w : List UInt8)
    (res : Nat × Option SinkRefusal) (t' : LineTagger) (s' : BoundedSink) : Prop where
  tracks : Tracks tag limit (W ++ w) t' s'
  refused : res.2.isSome ↔ w ≠ [] ∧ Overruns limit (tagLines tag (W ++ w)).length
  count : (takeUpTo limit (markLines tag true W)).countP (·.2) + res.1 =
    (takeUpTo limit (markLines tag true (W ++ w))).countP (·.2)

namespace Tracks

variable {tag : List UInt8} {limit : Option Nat} {W w : List UInt8} {t t' : LineTagger}
  {s s' : BoundedSink} {res : Nat × Option SinkRefusal}

/-- A full sink has a limit, and the tagged text so far reaches it. -/
theorem limit_of_full (h : Tracks tag limit W t s) (hfull : s.room = some 0) :
    ∃ l, limit = some l ∧ l ≤ (markLines tag true W).length := by
  cases hL : limit with
  | none =>
    rw [BoundedSink.room, h.limit_eq, hL] at hfull
    cases hfull
  | some l =>
    refine ⟨l, rfl, ?_⟩
    rw [BoundedSink.room, h.limit_eq, hL, h.taken_eq, hL] at hfull
    simp only [Option.map_some, Option.some.injEq, takeUpTo_some, List.length_take] at hfull
    rw [← length_tagLines]
    omega

/-- A sink with room holds the whole tagged text so far. -/
theorem fits_of_room (h : Tracks tag limit W t s) (hroom : s.room ≠ some 0) :
    ¬Overruns limit (markLines tag true W).length := by
  intro hover
  apply hroom
  cases hL : limit with
  | none =>
    rw [hL] at hover
    exact hover.elim
  | some l =>
    rw [hL, overruns_some] at hover
    rw [BoundedSink.room, h.limit_eq, hL, h.taken_eq, hL]
    simp only [Option.map_some, Option.some.injEq, takeUpTo_some, List.length_take]
    rw [length_tagLines]
    omega

/-- Into a full sink a write puts nothing, counts nothing, and is refused when it has bytes. -/
theorem steps_of_full (h : Tracks tag limit W t s) (hfull : s.room = some 0)
    (hputs : Puts s (markLines tag (!t.midLine) w) res s') (hkeep : t'.tag = tag) :
    Steps tag limit W w res t' s' := by
  obtain ⟨l, hl, hpast⟩ := h.limit_of_full hfull
  have hX : takeUpTo s.room (markLines tag (!t.midLine) w) = [] := by
    rw [hfull]
    rfl
  have hM := markLines_append tag true W w
  -- past the limit, the first `l` bytes of the tagged text no longer change
  have hkept : takeUpTo limit (markLines tag true (W ++ w)) =
      takeUpTo limit (markLines tag true W) := by
    rw [hM, hl, takeUpTo_some, takeUpTo_some, List.take_append_of_le_length hpast]
  refine ⟨⟨hkeep, hputs.limit.trans h.limit_eq, ?_, fun hr => absurd ?_ hr⟩, ?_, ?_⟩
  · rw [hputs.taken, hX, List.map_nil, List.append_nil, h.taken_eq, tagLines, tagLines,
      takeUpTo_map, takeUpTo_map, hkept]
  · rw [hputs.room_eq, hX, hfull]
    rfl
  · rw [hputs.refused, hfull, length_tagLines, hM, List.length_append, hl, overruns_some,
      overruns_some, length_markLines_pos_iff]
    -- the sink is full already, so any byte at all passes the limit
    constructor
    · intro hne
      have hpos : 0 < (markLines tag (endsLine true W) w).length := length_markLines_pos_iff.2 hne
      exact ⟨hne, by omega⟩
    · exact And.left
  · rw [hputs.count, hX, hkept]
    rfl

/-- Into a sink with room, a write continues the tagged text from where it stands. -/
theorem steps_of_room (h : Tracks tag limit W t s) (hroom : s.room ≠ some 0)
    (hputs : Puts s (markLines tag (endsLine true W) w) res s') (hkeep : t'.tag = tag)
    (hopen : res.2 = none → t'.midLine = !endsLine (endsLine true W) w) :
    Steps tag limit W w res t' s' := by
  have hfit := h.fits_of_room hroom
  have htaken : s.taken = tagLines tag W := by
    rw [h.taken_eq, takeUpTo_of_not_overruns (by rwa [length_tagLines])]
  have hroom' : s.room = limit.map (· - (markLines tag true W).length) := by
    rw [BoundedSink.room, h.limit_eq, htaken, length_tagLines]
  have hupto : takeUpTo limit (markLines tag true (W ++ w)) =
      markLines tag true W ++ takeUpTo s.room (markLines tag (endsLine true W) w) := by
    rw [markLines_append, takeUpTo_append, takeUpTo_of_not_overruns hfit, hroom']
  refine ⟨⟨hkeep, hputs.limit.trans h.limit_eq, ?_, fun hr => ?_⟩, ?_, ?_⟩
  · rw [hputs.taken, htaken, tagLines, tagLines, takeUpTo_map, hupto, List.map_append]
  · -- a refused write leaves the sink full, so the tagger only answers for an accepted one
    obtain ⟨n, e⟩ := res
    cases e with
    | some err => exact absurd hputs.room_of_refused hr
    | none => rw [hopen rfl, endsLine_append]
  · rw [hputs.refused, length_tagLines, markLines_append, List.length_append, overruns_add,
      hroom']
    constructor
    · intro hover
      refine ⟨fun hw => ?_, Or.inr hover⟩
      subst hw
      exact not_overruns_zero _ hover
    · rintro ⟨-, hover | hover⟩
      · exact absurd hover hfit
      · exact hover
  · rw [hupto, List.countP_append, hputs.count, takeUpTo_of_not_overruns hfit]

/-- One write keeps the tracking. -/
theorem write (h : Tracks tag limit W t s) (w : List UInt8) :
    Steps tag limit W w (t.write BoundedSink.put s w).1 (t.write BoundedSink.put s w).2.1
      (t.write BoundedSink.put s w).2.2 := by
  obtain ⟨hputs, hkeep, hopen⟩ := write_writes t s w
  rw [h.tag_eq] at hputs hkeep
  by_cases hfull : s.room = some 0
  · exact h.steps_of_full hfull hputs hkeep
  · -- with room, the tagger knows whether a line is open
    have hmid := h.open_eq hfull
    rw [hmid, Bool.not_not] at hputs hopen
    exact h.steps_of_room hfull hputs hkeep hopen

theorem start (tag : List UInt8) (limit : Option Nat) :
    Tracks tag limit [] { tag := tag } { limit := limit } where
  tag_eq := rfl
  limit_eq := rfl
  taken_eq := by cases limit <;> simp [tagLines, markLines]
  open_eq := fun _ => rfl

/-- Writes in sequence keep the tracking; each is refused exactly when it has bytes and the tagged
text up to it passes the limit, and their counts add up to the text bytes among the first bytes of
the tagged text. -/
theorem run (h : Tracks tag limit W t s) (ws : List (List UInt8)) :
    Tracks tag limit (W ++ ws.flatten) (writeAll BoundedSink.put t s ws).2.1
        (writeAll BoundedSink.put t s ws).2.2 ∧
      (writeAll BoundedSink.put t s ws).1.length = ws.length ∧
      (∀ i, ∀ r ∈ (writeAll BoundedSink.put t s ws).1[i]?, ∀ w ∈ ws[i]?,
        (r.2.isSome ↔
          w ≠ [] ∧ Overruns limit (tagLines tag (W ++ (ws.take (i + 1)).flatten)).length)) ∧
      (takeUpTo limit (markLines tag true W)).countP (·.2) +
          ((writeAll BoundedSink.put t s ws).1.map Prod.fst).sum =
        (takeUpTo limit (markLines tag true (W ++ ws.flatten))).countP (·.2) := by
  induction ws generalizing W t s with
  | nil =>
    simp only [writeAll, List.flatten_nil, List.append_nil]
    exact ⟨h, rfl, fun i r hr => by simp at hr, by simp⟩
  | cons w ws ih =>
    obtain ⟨h₁, herr, hcount⟩ := h.write w
    rw [writeAll]
    generalize t.write BoundedSink.put s w = p at h₁ herr hcount
    obtain ⟨r, t₁, s₁⟩ := p
    dsimp only at h₁ herr hcount
    obtain ⟨h₂, hlen, herrs, hcounts⟩ := ih h₁
    dsimp only
    generalize writeAll BoundedSink.put t₁ s₁ ws = q at h₂ hlen herrs hcounts
    obtain ⟨rs, t₂, s₂⟩ := q
    refine ⟨by simpa using h₂, by simpa using hlen, fun i => ?_, ?_⟩
    · -- the first write answers for the text up to it, the others by the run after it
      cases i with
      | zero =>
        intro r' hr' w' hw'
        simp only [List.getElem?_cons_zero, Option.mem_def, Option.some.injEq] at hr' hw'
        subst hr' hw'
        simpa using herr
      | succ i =>
        intro r' hr' w' hw'
        simp only [List.getElem?_cons_succ] at hr' hw'
        have := herrs i r' hr' w' hw'
        simpa [List.take_succ_cons, List.flatten_cons, List.append_assoc] using this
    · simp only [List.map_cons, List.sum_cons, List.flatten_cons, ← List.append_assoc] at hcounts ⊢
      omega

end Tracks

/-- With no limit, every write is taken whole and counts all its bytes. -/
theorem writeAll_unbounded (t : LineTagger) (s : BoundedSink) (hs : s.limit = none)
    (ws : List (List UInt8)) :
    (writeAll BoundedSink.put t s ws).1 = ws.map fun w => (w.length, none) := by
  induction ws generalizing t s with
  | nil => rfl
  | cons w ws ih =>
    obtain ⟨hputs, -, -⟩ := write_writes t s w
    have hroom : s.room = none := by rw [BoundedSink.room, hs]; rfl
    rw [writeAll]
    generalize t.write BoundedSink.put s w = p at hputs
    obtain ⟨⟨n, e⟩, t₁, s₁⟩ := p
    dsimp only at hputs
    have hn : n = w.length := by
      have hc := hputs.count
      rw [hroom, takeUpTo_none, countP_markLines] at hc
      exact hc
    have he : e = none := by
      cases e with
      | none => rfl
      | some err =>
        have := hputs.refused.1 rfl
        rw [hroom] at this
        exact this.elim
    dsimp only
    rw [ih t₁ s₁ (hputs.limit.trans hs), hn, he, List.map_cons]

/-- The writes `ws` to a new tagger of `tag` over a new sink that takes at most `limit` bytes in
all, or any number when there is no limit. -/
def runTagged (tag : List UInt8) (limit : Option Nat) (ws : List (List UInt8)) :
    List (Nat × Option SinkRefusal) × LineTagger × BoundedSink :=
  writeAll BoundedSink.put { tag := tag } { limit := limit } ws

/-- Writes to a new tagger over a sink with a limit: the sink holds the first `limit` bytes of the
text of all the writes with the tag before every line; a write is refused exactly when it has
bytes and the tagged text up to its end passes the limit; and the counts of the writes add up to
the bytes of the text, not of the tags, among the bytes the sink holds. So the sink's bytes do
not depend on how the text is cut into writes, and with no limit every write counts all its
bytes and is never refused. -/
theorem tagged_writes (tag : List UInt8) (limit : Option Nat) (ws : List (List UInt8)) :
    (runTagged tag limit ws).2.2.taken = takeUpTo limit (tagLines tag ws.flatten) ∧
      (runTagged tag limit ws).1.length = ws.length ∧
      (∀ i, ∀ r ∈ (runTagged tag limit ws).1[i]?, ∀ w ∈ ws[i]?,
        (r.2.isSome ↔ w ≠ [] ∧ Overruns limit (tagLines tag (ws.take (i + 1)).flatten).length)) ∧
      ((runTagged tag limit ws).1.map Prod.fst).sum =
        (takeUpTo limit (markLines tag true ws.flatten)).countP (·.2) ∧
      (∀ ws' : List (List UInt8), ws'.flatten = ws.flatten →
        (runTagged tag limit ws').2.2.taken = (runTagged tag limit ws).2.2.taken) ∧
      (limit = none → (runTagged tag limit ws).1 = ws.map fun w => (w.length, none)) := by
  have hrun := (Tracks.start tag limit).run
  obtain ⟨htr, hlen, herr, hcount⟩ := hrun ws
  refine ⟨?_, hlen, fun i r hr w hw => ?_, ?_, fun ws' hws => ?_, fun hl => ?_⟩
  · simpa [runTagged] using htr.taken_eq
  · simpa using herr i r hr w hw
  · simpa [runTagged, markLines] using hcount
  · -- the sink holds the first bytes of the same tagged text
    have htr' := ((hrun ws').1).taken_eq
    rw [List.nil_append] at htr'
    rw [runTagged, htr', hws, runTagged, htr.taken_eq, List.nil_append]
  · exact writeAll_unbounded _ _ hl ws

example : (runTagged "> ".toUTF8.toList none
    ["partial ".toUTF8.toList, "line\nnext".toUTF8.toList, " line\n".toUTF8.toList]).2.2.taken =
      "> partial line\n> next line\n".toUTF8.toList := by
  cbv

/-- A limit of nine bytes: the first write fits its seven text bytes behind the tag, the second
passes the limit and is refused with nothing counted. -/
example : (runTagged "> ".toUTF8.toList (some 9)
    ["partial ".toUTF8.toList, "line\nnext".toUTF8.toList]).1 =
      [(7, some .full), (0, some .full)] := by
  cbv

end LineTagger

end Paging
