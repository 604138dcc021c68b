/-!
# Tagged lines

A line tagger writes text to a sink with a tag in front of every line: before the first byte
of each line, and only when a byte of that line follows, so text that ends with a line feed
leaves the next tag unwritten. The tagger counts the bytes of the text that the sink took, not
those of the tags.

The sink is any state with a write function that takes a chunk and answers how many bytes it
took and, if it refused the rest, why. The tagger stops at the first refusal. `BoundedSink` is a
sink that takes at most a given number of bytes in all.
-/

namespace Paging

/-- The chunk up to and including the first line feed, and the rest. -/
def splitLine : List UInt8 → List UInt8 × List UInt8
  | [] => ([], [])
  | b :: bs =>
    if b = 10 then ([b], bs)
    else
      let (line, rest) := splitLine bs
      (b :: line, rest)

theorem length_splitLine_snd_lt (b : UInt8) (bs : List UInt8) :
    (splitLine (b :: bs)).2.length < (b :: bs).length := by
  induction bs generalizing b with
  | nil => simp only [splitLine]; split <;> simp
  | cons c cs ih =>
    simp only [splitLine]
    split
    · simp
    · have := ih c
      simp only [splitLine] at this
      simp only [List.length_cons] at this ⊢
      omega

/-- A writer that puts a tag in front of each line. -/
structure LineTagger where
  tag : List UInt8
  /-- Whether the last byte written did not end a line, so the tag of the line is out. -/
  midLine : Bool := false

namespace LineTagger

variable {σ ε : Type}

/-- Writes the bytes; the count of text bytes taken, the refusal that stopped the writing if
any, the tagger after it and the sink after it. -/
def write (put : σ → List UInt8 → (Nat × Option ε) × σ) (t : LineTagger) (sink : σ) :
    List UInt8 → (Nat × Option ε) × LineTagger × σ
  | [] => ((0, none), t, sink)
  | b :: bs =>
    let tagged : Option ε × σ :=
      if t.midLine then (none, sink)
      else
        let ((_, err), sink') := put sink t.tag
        (err, sink')
    match tagged with
    | (some err, sink') => ((0, some err), t, sink')
    | (none, sink') =>
      let t := { t with midLine := true }
      let parts := splitLine (b :: bs)
      have : parts.2.length < (b :: bs).length := length_splitLine_snd_lt b bs
      let line := parts.1
      let ((n, err), sink'') := put sink' line
      match err with
      | some err => ((n, some err), t, sink'')
      | none =>
        let t := if line.getLast? = some 10 then { t with midLine := false } else t
        let ((m, err), t, sink''') := write put t sink'' parts.2
        ((n + m, err), t, sink''')
termination_by bytes => bytes.length
decreasing_by exact length_splitLine_snd_lt b bs

end LineTagger

/-- Why a sink refused bytes. -/
inductive SinkRefusal where
  /-- The sink has taken all that it can hold. -/
  | full
  deriving DecidableEq, Repr

/-- The text of the refusal. -/
def SinkRefusal.message : SinkRefusal → String
  | .full => "sink full"

/-- A sink that takes at most `limit` bytes in all, or any number when there is no limit. -/
structure BoundedSink where
  limit : Option Nat
  /-- The bytes taken, in order. -/
  taken : List UInt8 := []
  /-- The part of each chunk that was taken, one per write. -/
  chunks : Array (List UInt8) := #[]

namespace BoundedSink

/-- Takes what fits of the chunk; a chunk that does not fit whole is refused for the rest. -/
def put (s : BoundedSink) (chunk : List UInt8) : (Nat × Option SinkRefusal) × BoundedSink :=
  let room := match s.limit with
    | some l => l - s.taken.length
    | none => chunk.length
  if chunk.length ≤ room then
    ((chunk.length, none), { s with taken := s.taken ++ chunk, chunks := s.chunks.push chunk })
  else
    let part := chunk.take room
    ((room, some .full), { s with taken := s.taken ++ part, chunks := s.chunks.push part })

end BoundedSink

end Paging
