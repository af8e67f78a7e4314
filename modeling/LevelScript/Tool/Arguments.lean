import LevelScript.Text.Encoding
import LevelScript.Text.Numeral

/-!
# Arguments of the command line

The tool takes the options `--input` and `--encoding`, then a command with options of its own.
An option has a long name and perhaps a letter; its value stands after an equals sign, directly
after the letter, or in the next argument unless that one starts with a dash. Arguments are read
in order, and the first one that does not fit, or that asks for help, decides.
-/

namespace LevelScript.Tool

structure RunOptions where
  map : Int32 := 1
  ticks : UInt64 := 35
  seed : UInt32 := 1
  /-- Sector tags that stay busy for the whole run. -/
  busyTags : List Int32 := []
  /-- A file with settings. -/
  config : Option String := none
  /-- Where to write a snapshot after the last tick. -/
  snapshot : Option String := none
  deriving DecidableEq, Repr, Inhabited

inductive Command where
  /-- Writes the listing and a summary to a directory. -/
  | exportTo (directory : String)
  /-- Prints the listing, or one script of it. -/
  | list (script : Option Int32)
  /-- Runs the program as a level. -/
  | run (options : RunOptions)
  deriving DecidableEq, Repr, Inhabited

structure Arguments where
  input : String
  encoding : Text.Encoding
  command : Command
  deriving DecidableEq, Repr, Inhabited

/-- Why there is nothing to run. -/
inductive Stop where
  | help
  | misuse
  deriving DecidableEq, Repr, Inhabited

/-! ## Options -/

/-- An option whose values change a state `σ`; a value may be refused. -/
structure Switch (σ : Type) where
  long : String
  letter : Option Char
  /-- Whether it may be given more than once. -/
  repeats : Bool := false
  set : String → σ → Option σ

/-- What a command line may hold at one place. -/
structure Grammar (σ : Type) where
  switches : List (Switch σ)
  /-- Whether the version can be asked for. -/
  hasVersion : Bool := false
  /-- Names of commands that may follow. -/
  commands : List String := []

/-- A command and its arguments. -/
abbrev Rest := Option (String × List String)

/-- Whether an argument starts an option. -/
def isOption (argument : String) : Bool :=
  argument.startsWith "-" && argument != "-"

/-- How an option's value is given. -/
inductive Given where
  | attached (value : String)
  | next

variable {σ : Type}

/-- Sets an option, unless it was given before. -/
def give (switch : Switch σ) (value : String) (seen : List String) (s : σ) :
    Except Stop (List String × σ) :=
  if seen.contains switch.long && !switch.repeats then .error .misuse
  else
    match switch.set value s with
    | some s => .ok (switch.long :: seen, s)
    | none => .error .misuse

/-- The option that an argument names. -/
def Grammar.option (g : Grammar σ) (argument : String) : Except Stop (Switch σ × Given) :=
  match argument.toList with
  | '-' :: '-' :: name =>
    let long := String.ofList (name.takeWhile (· != '='))
    let value := name.dropWhile (· != '=')
    if value.isEmpty && (long == "help" || (g.hasVersion && long == "version")) then .error .help
    else
      match g.switches.find? (·.long == long), value with
      | some s, [] => .ok (s, .next)
      | some s, _ :: value => .ok (s, .attached (String.ofList value))
      | none, _ => .error .misuse
  | '-' :: letter :: value =>
    if letter == 'h' || (g.hasVersion && letter == 'V') then .error .help
    else
      match g.switches.find? (·.letter == some letter), value with
      | some s, [] => .ok (s, .next)
      | some s, '=' :: value => .ok (s, .attached (String.ofList value))
      | some s, value => .ok (s, .attached (String.ofList value))
      | none, _ => .error .misuse
  | _ => .error .misuse

/-- An argument that is no option: the command, or a question about one. -/
def Grammar.command (g : Grammar σ) (argument : String) (rest : List String) (s : σ) :
    Except Stop (σ × Rest) :=
  if g.commands.contains argument then .ok (s, some (argument, rest))
  else if argument == "help" && !g.commands.isEmpty then
    match rest with
    | [] => .error .help
    | [name] => .error (if (g.commands ++ ["help"]).contains name then .help else .misuse)
    | _ => .error .misuse
  else .error .misuse

/-- Reads arguments in order; `wanted` is the option that waits for its value. -/
def Grammar.scan (g : Grammar σ) (wanted : Option (Switch σ)) (seen : List String) (s : σ) :
    List String → Except Stop (σ × Rest)
  | [] => if wanted.isSome then .error .misuse else .ok (s, none)
  | argument :: rest =>
    match wanted with
    | some switch =>
      if isOption argument then
        .error .misuse
      else do
        let (seen, s) ← give switch argument seen s
        g.scan none seen s rest
    | none =>
      if argument == "--" then
        if rest.isEmpty then .ok (s, none) else .error .misuse
      else if isOption argument then do
        match ← g.option argument with
        | (switch, .next) => g.scan (some switch) seen s rest
        | (switch, .attached value) =>
          let (seen, s) ← give switch value seen s
          g.scan none seen s rest
      else g.command argument rest s

/-! ## Values -/

def path? (s : String) : Option String := if s.isEmpty then none else some s

def int32? (s : String) : Option Int32 := (Text.integer? 0x80000000 s).map Int32.ofInt

def ticks? (s : String) : Option UInt64 := (Text.natural? UInt64.size s).map Nat.toUInt64

/-- A number of 32 bits; a sign is allowed even before zero. -/
def seed? (s : String) : Option UInt32 :=
  (Text.integer? 0x8000000000000000 s).bind fun n =>
    if 0 ≤ n ∧ n.toNat < UInt32.size then some n.toNat.toUInt32 else none

/-! ## The tool's grammar -/

/-- What stands before the command. -/
structure Leading where
  input : Option String := none
  encoding : Text.Encoding := .standard

def leading : Grammar Leading where
  switches := [
    { long := "input", letter := some 'i'
      set := fun v l => (path? v).map fun p => { l with input := some p } },
    { long := "encoding", letter := some 'e'
      set := fun v l => (Text.Encoding.parse v).toOption.map fun e => { l with encoding := e } }]
  hasVersion := true
  commands := ["export", "disasm", "run"]

def exportGrammar : Grammar (Option String) where
  switches := [
    { long := "output", letter := some 'o', set := fun v _ => (path? v).map some }]

def listGrammar : Grammar (Option Int32) where
  switches := [
    { long := "script", letter := some 's', set := fun v _ => (int32? v).map some }]

def runGrammar : Grammar RunOptions where
  switches := [
    { long := "map", letter := some 'm'
      set := fun v o => (int32? v).map fun n => { o with map := n } },
    { long := "ticks", letter := some 't'
      set := fun v o => (ticks? v).map fun n => { o with ticks := n } },
    { long := "seed", letter := none
      set := fun v o => (seed? v).map fun n => { o with seed := n } },
    { long := "busy-tag", letter := none, repeats := true
      set := fun v o => (int32? v).map fun n => { o with busyTags := o.busyTags ++ [n] } },
    { long := "config", letter := some 'c'
      set := fun v o => (path? v).map fun p => { o with config := some p } },
    { long := "snapshot", letter := none
      set := fun v o => (path? v).map fun p => { o with snapshot := some p } }]

/-- Reads the arguments of a command. -/
def parseCommand (name : String) (arguments : List String) : Except Stop Command := do
  match name with
  | "export" =>
    match (← exportGrammar.scan none [] none arguments).1 with
    | some directory => .ok (.exportTo directory)
    | none => .error .misuse
  | "disasm" => return .list (← listGrammar.scan none [] none arguments).1
  | _ => return .run (← runGrammar.scan none [] {} arguments).1

def Arguments.parse (arguments : List String) : Except Stop Arguments := do
  let (given, rest) ← leading.scan none [] {} arguments
  let some (name, arguments) := rest | .error .misuse
  let command ← parseCommand name arguments
  let some input := given.input | .error .misuse
  return ⟨input, given.encoding, command⟩

end LevelScript.Tool
