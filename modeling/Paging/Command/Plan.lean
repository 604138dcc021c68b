import Paging.Command.Options
import Paging.Machine.Space
/-!
# The planning command

`mapsolve` prints how a mapping request is split into segments of blocks, one line per segment
with the frame it starts at and its number of entries. With `-build` it also builds the page
tables, with frames from a run of memory that the host reserves (`Plan.Host`), and reports how
many frames they took.

A request that reaches past what the mode translates is refused before anything is printed.
Faults end the command with `[mapsolve] error: ` and the fault's message on the error output and
status 1; faulty options end it with the usage text and status 2.
-/

namespace Paging

/-- What a run of a command leaves behind: its output, its error output and its exit status. -/
structure Outcome where
  stdout : String := ""
  stderr : String := ""
  exit : UInt32 := 0
  deriving DecidableEq, Repr

namespace Plan

/-- The name the command reports under. -/
def program : String := "mapsolve"

/-- The options of the command. -/
def specs : List OptionSpec :=
  [ ⟨"mode", .text, "paging mode (sv39 or sv39x4)", "sv39"⟩,
    ⟨"vpn", .unsigned, "first virtual (or guest physical) page number", "0"⟩,
    ⟨"ppn", .unsigned, "first physical page number", "0"⟩,
    ⟨"count", .unsigned, "number of pages to map", "0"⟩,
    ⟨"build", .switch, "build the page tables in host memory and report their size", "false"⟩,
    ⟨"table-frames", .unsigned, "frames reserved for page tables when -build is set", "1024"⟩ ]

/-- A request read from the options. -/
structure Request where
  mode : String := "sv39"
  vpn : VirtPage := 0
  ppn : PhysPage := 0
  count : UInt64 := 0
  build : Bool := false
  tableFrames : UInt64 := 1024
  deriving DecidableEq, Repr

/-- The request that the option values give, the defaults standing for options not given. -/
def Request.ofValues (values : List (String × OptionValue)) : Request :=
  let unsigned (name : String) (d : UInt64) : UInt64 :=
    match Options.lookup values name with
    | some (.unsigned n) => n
    | _ => d
  { mode := match Options.lookup values "mode" with
      | some (.text s) => s
      | _ => "sv39"
    vpn := unsigned "vpn" 0
    ppn := unsigned "ppn" 0
    count := unsigned "count" 0
    build := match Options.lookup values "build" with
      | some (.switch b) => b
      | _ => false
    tableFrames := unsigned "table-frames" 1024 }

/-- The mode that a name selects, in any case. -/
def modeNamed (name : String) : Option Mode :=
  match name.toLower with
  | "sv39" => some Mode.sv39
  | "sv39x4" => some Mode.sv39x4
  | _ => none

/-- The line that announces the plan. -/
def headline (m : Mode) (req : Request) : String :=
  m.name ++ ": map " ++ Numeral.decimal req.count.toNat ++ " pages from vpn 0x" ++
    Numeral.hex req.vpn.toNat ++ " to ppn 0x" ++ Numeral.hex req.ppn.toNat ++ "\n"

/-- The line of one segment: its pages, the frame of its first page and its number of
entries. -/
def segmentLine (m : Mode) (req : Request) (seg : Segment) : Except Halt String := do
  let block := (← m.layout seg.level).frames
  return "  level " ++ Numeral.decimal seg.level.toNat ++ ": vpn [0x" ++ Numeral.hex seg.start.toNat ++
    ", 0x" ++ Numeral.hex seg.stop.toNat ++ ") -> ppn 0x" ++
    Numeral.hex (req.ppn + (seg.start - req.vpn)).toNat ++ " (" ++
    Numeral.decimal ((seg.stop - seg.start) / block).toNat ++ " entries)\n"

/-! ## The host's memory -/

/-- The host that reserves memory for the tables: `mmap` of an anonymous run of `length` bytes,
the length given as the host's signed integer, returns the address of the run or refuses. -/
structure Host where
  mmap : Int → Option UInt64

/-- What `mmap` does on every host: it refuses a length that is not positive, and a run that it
maps starts on a frame and ends within the address space. -/
structure Host.Lawful (host : Host) : Prop where
  refuses_nonpositive : ∀ length, length ≤ 0 → host.mmap length = none
  frame_aligned : ∀ length addr, host.mmap length = some addr → addr.toNat % 4096 = 0
  fits : ∀ length addr, host.mmap length = some addr → addr.toNat + length.toNat ≤ UInt64.size

/-- The host that the command runs on: it maps a run of up to 64 GiB at once, always from the
frame `0x80000`, and refuses a longer one. -/
def defaultHost : Host where
  mmap length := if 0 < length ∧ length ≤ 0x1000000000 then some 0x80000000 else none

/-- Reserves `frames` frames of host memory whose first frame is a multiple of `align`, a power
of two: the host maps `frames + align - 1` frames, the length in bytes passed as a signed
integer, and the reservation starts at the first multiple of `align` among them. The frames
reserved. -/
def reserve (host : Host) (frames align : UInt64) : Except Fault (PhysPage × PhysPage) :=
  if frames = 0 then .error .zeroFrames
  else if align = 0 || align &&& (align - 1) != 0 then .error .regionAlignment
  else
    let size := Word.shiftLeft (frames + align - 1) 12
    match host.mmap size.toInt64.toInt with
    | none => .error .hostRefused
    | some addr =>
      let start := Word.alignUp (Mode.sv39.ppnOf addr) align
      .ok (start, start + frames)

/-- Builds the tables of the request in a space of the mode over the frames `[start, stop)`;
the frames the tables took. -/
def buildTables (m : Mode) (req : Request) (start stop : PhysPage) : Run (Except Fault UInt64) := do
  let a ← Machine.newAllocator start stop
  match ← Machine.newSpace m a with
  | .error f => return .error f
  | .ok s =>
    match ← Machine.map s req.vpn req.ppn req.count Flags.rwx with
    | .error f => return .error f
    | .ok () => return .ok (← Machine.space s).ownedFrames

/-- The outcome of a fault: the output so far and the fault's message. -/
def failed (out : String) (msg : String) : Outcome :=
  { stdout := out, stderr := "[" ++ program ++ "] error: " ++ msg ++ "\n", exit := 1 }

/-- Carries out a request in the mode, with memory for the tables from the host. -/
def solve (host : Host) (m : Mode) (req : Request) : Outcome :=
  match m.checkRange req.vpn req.ppn req.count with
  | .error f => failed "" f.message
  | .ok () =>
    let planned : Except Halt String := do
      let segs ← m.segments req.vpn req.ppn req.count
      let lines ← segs.mapM (segmentLine m req)
      return headline m req ++ String.join lines
    match planned with
    | .error _ => { exit := 1 }
    | .ok out =>
      if !req.build then { stdout := out }
      else
        match m.tableFrames m.topLevel with
        | .error _ => { stdout := out, exit := 1 }
        | .ok align =>
          match reserve host req.tableFrames align with
          | .error f => failed out f.message
          | .ok (start, stop) =>
            match (buildTables m req start stop).run {} with
            | .ok (.ok owned) _ =>
              { stdout := out ++ "page tables: " ++ Numeral.decimal owned.toNat ++ " frames (" ++
                  Numeral.decimal (m.framesSize owned / 1024).toNat ++ "Kb)\n" }
            | .ok (.error f) _ => failed out f.message
            | .error _ _ => { stdout := out, exit := 1 }

/-- Runs the command with the arguments on the host. -/
def run (host : Host) (args : List String) : Outcome :=
  match Options.parse specs args with
  | .help => { stderr := Options.usage program specs }
  | .fault msg => { stderr := msg ++ "\n" ++ Options.usage program specs, exit := 2 }
  | .parsed values _ =>
    let req := Request.ofValues values
    if req.count = 0 then failed "" "missing -count"
    else
      match modeNamed req.mode with
      | some m => solve host m req
      | none => failed "" ("unknown paging mode " ++ Text.quote req.mode)

end Plan

end Paging
