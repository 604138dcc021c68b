import Paging.Command.Unsigned
import Paging.Text.Quoted
/-!
# Command-line options

A command takes named options before its other arguments. An option is written `-name value`,
`-name=value`, or with two dashes in front; a switch takes no separate value (`-name` sets it,
`-name=false` clears it). The options end at the first argument that does not start with a dash
or is a lone dash, and after an argument `--`. An option given twice keeps its last value.

Reading stops at the first fault, which is reported with the usage text; `-h` and `-help`,
unless the command defines them, ask for the usage text alone.

`Options.usage` lists the options in order of their names, each with its kind of value, its
description and its default when that is not the zero value.
-/

namespace Paging

/-- What an option holds. -/
inductive OptionKind where
  /-- Any text. -/
  | text
  /-- An unsigned 64-bit number. -/
  | unsigned
  /-- A truth value, set by naming the option. -/
  | switch
  deriving DecidableEq, Repr

/-- An option that a command defines: its name, kind, description and default. -/
structure OptionSpec where
  name : String
  kind : OptionKind
  description : String
  default : String
  deriving DecidableEq, Repr

/-- The value that an option was given. -/
inductive OptionValue where
  | text (s : String)
  | unsigned (n : UInt64)
  | switch (b : Bool)
  deriving DecidableEq, Repr

/-- The outcome of reading the options. -/
inductive OptionsOutcome where
  /-- The options read, latest first, and the arguments after them. -/
  | parsed (values : List (String × OptionValue)) (rest : List String)
  /-- The arguments asked for the usage text. -/
  | help
  /-- The arguments are faulty, for the reason given. -/
  | fault (message : String)
  deriving DecidableEq, Repr

namespace Options

/-- The truth value that a text spells, if it spells one. -/
def parseSwitch (s : String) : Option Bool :=
  if s ∈ ["1", "t", "T", "TRUE", "true", "True"] then some true
  else if s ∈ ["0", "f", "F", "FALSE", "false", "False"] then some false
  else none

/-- The name and the value written after `=`, if there is one; a name never starts with `=`. -/
def splitValue (name : String) : String × Option String :=
  match name.toList with
  | c :: rest =>
    match rest.findIdx? (· = '=') with
    | some i => (String.ofList (c :: rest.take i), some (String.ofList (rest.drop (i + 1))))
    | none => (name, none)
  | [] => (name, none)

/-- The value of an option of the given kind from its text. -/
def valueOf (spec : OptionSpec) (v : String) : Except String OptionValue :=
  match spec.kind with
  | .text => .ok (.text v)
  | .unsigned =>
    match Unsigned.parse v with
    | .ok n => .ok (.unsigned n)
    | .error f => .error ("invalid value " ++ Text.quote v ++ " for flag -" ++ spec.name ++ ": " ++ f.message)
  | .switch =>
    match parseSwitch v with
    | some b => .ok (.switch b)
    | none => .error ("invalid boolean value " ++ Text.quote v ++ " for -" ++ spec.name ++ ": parse error")

/-- Reads the options at the front of the arguments. -/
def parse (specs : List OptionSpec) (args : List String) : OptionsOutcome :=
  go args []
where
  go : List String → List (String × OptionValue) → OptionsOutcome
    | [], acc => .parsed acc []
    | arg :: rest, acc =>
      match arg.toList with
      | '-' :: c :: more =>
        if c = '-' && more.isEmpty then .parsed acc rest
        else
          let body := if c = '-' then more else c :: more
          match body with
          | [] => .fault ("bad flag syntax: " ++ arg)
          | b :: _ =>
            if b = '-' || b = '=' then .fault ("bad flag syntax: " ++ arg)
            else
              let (name, written) := splitValue (String.ofList body)
              match specs.find? (·.name = name) with
              | none =>
                if name = "help" || name = "h" then .help
                else .fault ("flag provided but not defined: -" ++ name)
              | some spec =>
                if spec.kind = .switch then
                  match valueOf spec (written.getD "true") with
                  | .ok v => go rest ((name, v) :: acc)
                  | .error msg => .fault msg
                else
                  match written with
                  | some w =>
                    match valueOf spec w with
                    | .ok v => go rest ((name, v) :: acc)
                    | .error msg => .fault msg
                  | none =>
                    match rest with
                    | w :: rest' =>
                      match valueOf spec w with
                      | .ok v => go rest' ((name, v) :: acc)
                      | .error msg => .fault msg
                    | [] => .fault ("flag needs an argument: -" ++ name)
      | _ => .parsed acc (arg :: rest)

/-- The name of the kind of value, as the usage text shows it. -/
def kindName : OptionKind → String
  | .text => "string"
  | .unsigned => "uint"
  | .switch => ""

/-- Whether the default is the zero value of its kind, which the usage text leaves out. -/
def isZeroDefault (spec : OptionSpec) : Bool :=
  match spec.kind with
  | .text => spec.default = ""
  | .unsigned => spec.default = "0"
  | .switch => spec.default = "false"

/-- The lines of the usage text for one option. -/
def usageOf (spec : OptionSpec) : String :=
  let head := "  -" ++ spec.name ++ (if spec.kind = .switch then "" else " " ++ kindName spec.kind)
  let sep := if head.length ≤ 4 then "\t" else "\n    \t"
  let dflt :=
    if isZeroDefault spec then ""
    else if spec.kind = .text then " (default " ++ Text.quote spec.default ++ ")"
    else " (default " ++ spec.default ++ ")"
  head ++ sep ++ spec.description.replace "\n" "\n    \t" ++ dflt ++ "\n"

/-- Inserts an option into a list sorted by name. -/
def insertByName (spec : OptionSpec) : List OptionSpec → List OptionSpec
  | [] => [spec]
  | s :: rest => if spec.name < s.name then spec :: s :: rest else s :: insertByName spec rest

/-- The usage text of the command: its name, then each option in order of names. -/
def usage (program : String) (specs : List OptionSpec) : String :=
  "Usage of " ++ program ++ ":\n" ++
    String.join ((specs.foldr insertByName []).map usageOf)

/-- The value last given to the option, if any. -/
def lookup (values : List (String × OptionValue)) (name : String) : Option OptionValue :=
  (values.find? (·.1 = name)).map (·.2)

end Options

end Paging
