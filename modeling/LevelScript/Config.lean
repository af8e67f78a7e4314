import LevelScript.Document.Basic
import LevelScript.Journal
import LevelScript.Text.Encoding
import LevelScript.Text.Numeral

/-!
# Settings

Limits of a run, the preferred language, the encoding of literals, and whether this side runs
scripts at all. Settings come from setters, from the environment, or from named values of a
file; only setters and the environment raise limits that are too small.
-/

namespace LevelScript

/-- Who runs scripts. -/
inductive Role where
  /-- Runs scripts and sends their effects. -/
  | authoritative
  /-- Performs the effects it receives and runs nothing. -/
  | replica
  deriving DecidableEq, Repr, Inhabited

def Role.name : Role → String
  | .authoritative => "authoritative"
  | .replica => "replica"

instance : Documented Role where
  toDocument r := .text r.name
  ofDocument? := Document.named? Role.name [.authoritative, .replica]

instance : Documented Text.Encoding where
  toDocument e := .text e.name
  ofDocument? := Document.named? Text.Encoding.name [.utf8, .windows1252]

structure Config where
  /-- Instructions an instance may execute before it has to yield. -/
  instructionLimit : UInt32
  /-- Slots of the operand stack. -/
  stackCapacity : Nat
  /-- Variables every script has at least. -/
  scriptLocals : Nat
  locale : Language
  encoding : Text.Encoding
  role : Role
  deriving DecidableEq, Repr

namespace Config

def standard : Config where
  instructionLimit := 500000
  stackCapacity := 4096
  scriptLocals := 20
  locale := .english
  encoding := .standard
  role := .authoritative

instance : Inhabited Config := ⟨standard⟩

/-! ## Setters -/

/-- At least one instruction. -/
def withInstructionLimit (c : Config) (limit : UInt32) : Config :=
  { c with instructionLimit := max limit 1 }

/-- At least sixteen slots. -/
def withStackCapacity (c : Config) (slots : Nat) : Config :=
  { c with stackCapacity := max slots 16 }

/-! ## Environment -/

/-- Variables of the environment, by name. -/
abbrev Environment := String → Option String

/-- Applies a variable if it is set and its value can be read; otherwise it is noted. -/
def applyVariable (env : Environment) (name : String) (set : String → Option (Config → Config))
    (c : Config × List Diagnostic) : Config × List Diagnostic :=
  match env name with
  | none => c
  | some raw =>
    match set (Text.trimBlank raw) with
    | some f => (f c.1, c.2)
    | none => (c.1, c.2 ++ [.ignoredSetting name raw])

/-- The standard settings, changed by three variables. -/
def ofEnvironment (env : Environment) : Config × List Diagnostic :=
  let limit (s : String) := (Text.natural? UInt32.size s).map fun n (c : Config) =>
    c.withInstructionLimit n.toUInt32
  let capacity (s : String) := (Text.natural? UInt64.size s).map fun n (c : Config) =>
    c.withStackCapacity n
  let locale (s : String) := (Language.parse s).toOption.map fun l (c : Config) =>
    { c with locale := l }
  applyVariable env "ACS_VM_LOCALE" locale
    (applyVariable env "ACS_VM_STACK_CAPACITY" capacity
      (applyVariable env "ACS_VM_INSTRUCTION_LIMIT" limit (standard, [])))

/-! ## Named values -/

/-- Changes one setting; names that mean nothing are skipped. -/
def assign (c : Config) (entry : String × Document) : Option Config :=
  let (name, value) := entry
  if name == "instruction_limit" then
    (value.natBelow? UInt32.size).map fun n => { c with instructionLimit := n.toUInt32 }
  else if name == "stack_capacity" then
    (value.natBelow? UInt64.size).map fun n => { c with stackCapacity := n }
  else if name == "script_locals" then
    (value.natBelow? UInt64.size).map fun n => { c with scriptLocals := n }
  else if name == "locale" then
    (value.text?.bind fun s => (Language.parse s).toOption).map fun l => { c with locale := l }
  else if name == "encoding" then
    (ofDocument? value).map fun e => { c with encoding := e }
  else if name == "role" then
    (ofDocument? value).map fun r => { c with role := r }
  else some c

/-- Names of the settings, in the order in which a list gives their values. -/
def names : List String :=
  ["instruction_limit", "stack_capacity", "script_locals", "locale", "encoding", "role"]

/-- Values change the standard settings, by name or in order; none when one does not fit. -/
instance : Documented Config where
  toDocument c := .record [("instruction_limit", toDocument c.instructionLimit),
    ("stack_capacity", .int c.stackCapacity), ("script_locals", .int c.scriptLocals),
    ("locale", .text c.locale.code), ("encoding", toDocument c.encoding),
    ("role", toDocument c.role)]
  ofDocument?
    | .record entries => entries.foldlM assign standard
    | .list values =>
      if values.length ≤ names.length then (names.zip values).foldlM assign standard else none
    | _ => none

end Config

end LevelScript
