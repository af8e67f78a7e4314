import LevelScript.Image.Basic
import LevelScript.Language
import LevelScript.Opcode.Basic
import LevelScript.World.Effect

/-!
# Journal

Loading, running and listing report what they meet. A report is a `Diagnostic`, with a severity
and a line of text; a `Journal` keeps those up to a chosen severity, in order. Nothing that runs
depends on what a journal holds.
-/

namespace LevelScript

/-! ## Faults

What ends a running instance when its code cannot go on. A fault is reported and never leaves
the level. -/

inductive Fault where
  | stackOverflow (capacity : Nat)
  | stackUnderflow
  | functionOutOfRange (index : UInt32) (count : Nat)
  | unresolvedFunction (index : UInt32)
  | pcOutOfRange (pc length : UInt32)
  | badFrame (slot : Nat)
  | returnOutsideFunction
  deriving DecidableEq, Repr, Inhabited

def Fault.message : Fault → String
  | .stackOverflow capacity => s!"stack overflow (capacity={capacity})"
  | .stackUnderflow => "stack underflow"
  | .functionOutOfRange index count => s!"function index {index} out of range (count={count})"
  | .unresolvedFunction index => s!"function {index} is imported and not resolved"
  | .pcOutOfRange pc length =>
    "pc out of range: pc=0x" ++ Text.upperHex pc.toNat ++ ", module_len=0x" ++
      Text.upperHex length.toNat
  | .badFrame slot => s!"corrupt call frame at slot {slot}"
  | .returnOutsideFunction => "return outside a function"

/-! ## Diagnostics -/

/-- How severe a diagnostic is, the most severe first. -/
inductive Severity where
  | error
  | warn
  | info
  | debug
  | trace
  deriving DecidableEq, Repr, Inhabited

namespace Severity

def rank : Severity → Nat
  | .error => 1
  | .warn => 2
  | .info => 3
  | .debug => 4
  | .trace => 5

def title : Severity → String
  | .error => "ERROR"
  | .warn => "WARN"
  | .info => "INFO"
  | .debug => "DEBUG"
  | .trace => "TRACE"

def ofName? (name : String) : Option Severity :=
  [.error, .warn, .info, .debug, .trace].find? fun s => s.title.toLower == name

end Severity

/-- What a request kept for another map asks for. -/
inductive DeferredAction where
  | execute
  | executeAlways
  | suspend
  | terminate
  deriving DecidableEq, Repr, Inhabited

def DeferredAction.title : DeferredAction → String
  | .execute => "Execute"
  | .executeAlways => "ExecuteAlways"
  | .suspend => "Suspend"
  | .terminate => "Terminate"

/-- What a body of code belongs to. -/
inductive BodyKind where
  | script
  | function
  deriving DecidableEq, Repr, Inhabited

def BodyKind.title : BodyKind → String
  | .script => "Script"
  | .function => "Function"

inductive Diagnostic where
  /- Running. -/
  | cannotResume (script : Int32) (fault : Fault)
  | runaway (script : Int32) (limit : UInt32)
  | aborted (script : Int32) (pc : UInt32) (fault : Fault)
  | divisionByZero (script : Int32)
  | modulusByZero (script : Int32)
  | unknownOpcode (script : Int32) (number pc : UInt32)
  | variableOutOfRange (script : Int32) (scope : Scope) (index : UInt32)
  | textMissing (index : Int32) (locale : Language)
  | executing (script : Int32) (pc : UInt32) (opcode : Opcode)
  | executed (script : Int32) (count : Nat)
  /- Levels. -/
  | cannotStart (script : Int32)
  | started (script : Int32)
  | finished (script : Int32)
  | tooManyStarts
  | deferring (action : DeferredAction) (script map : Int32)
  | droppedDeferred (action : DeferredAction) (script map : Int32)
  | levelBegun (map : Int32) (opened : Nat)
  | restored (map : Int32) (tick : UInt64) (scripts : Nat)
  /- Loading and assembling. -/
  | loaded (layout : Layout) (size scripts functions arrays : Nat) (languages : List Language)
  | duplicateTable (language : Language)
  | duplicateScripts (count : Nat)
  | unknownScriptEntry (chunk : String) (script : Int32)
  | arrayOutsideScope (array : Nat) (slot : UInt32)
  | undeclaredArray (array : UInt32)
  | labelNeverBound (label : Nat)
  /- Settings, listings and dry runs. -/
  | ignoredSetting (name value : String)
  | listingStopped (kind : BodyKind) (id : Int32) (pc : UInt32) (fault : Fault)
  | specialRun (special : Int32) (args : SpecialArgs) (line : Option Line) (side : Side)
  | performed (effect : Effect)
  | sideEffects (count ticks : Nat)
  | exported (bodies : Nat) (directory : String)
  deriving DecidableEq, Repr

namespace Diagnostic

def severity : Diagnostic → Severity
  | cannotResume .. | runaway .. | aborted .. => .error
  | divisionByZero .. | modulusByZero .. | unknownOpcode .. | variableOutOfRange ..
  | cannotStart .. | tooManyStarts | droppedDeferred .. | duplicateTable .. | duplicateScripts ..
  | arrayOutsideScope .. | undeclaredArray .. | labelNeverBound .. | ignoredSetting ..
  | listingStopped .. => .warn
  | levelBegun .. | restored .. | loaded .. | specialRun .. | sideEffects .. | exported .. => .info
  | textMissing .. | started .. | finished .. | deferring .. | unknownScriptEntry ..
  | performed .. => .debug
  | executing .. | executed .. => .trace

open Describe in
def message : Diagnostic → String
  | cannotResume script fault => s!"script {int script}: cannot resume: {fault.message}"
  | runaway script limit =>
    s!"script {int script} ran {limit} instructions without yielding; terminating"
  | aborted script pc fault =>
    s!"script {int script} aborted at 0x{Text.upperHex pc.toNat}: {fault.message}"
  | divisionByZero script => s!"script {int script}: division by zero; terminating"
  | modulusByZero script => s!"script {int script}: modulus by zero; terminating"
  | unknownOpcode script number pc =>
    s!"script {int script}: unknown opcode {number} at 0x{Text.upperHex pc.toNat}, skipped"
  | variableOutOfRange script scope index =>
    s!"script {int script}: {scope.title} variable {index} out of range"
  | textMissing index locale => s!"string {int index} not found for locale {locale.displayName}"
  | executing script pc opcode =>
    s!"script {int script} 0x{Text.upperHexPadded 4 pc.toNat} {opcode.mnemonic}"
  | executed script count => s!"script {int script} ran {count} instructions"
  | cannotStart script => s!"cannot start script {int script}: not in this module"
  | started script => s!"started script {int script}"
  | finished script => s!"script {int script} finished"
  | tooManyStarts => "too many scripts started at once; the rest wait for the next tick"
  | deferring action script map =>
    s!"deferring {action.title} of script {int script} until map {int map} loads"
  | droppedDeferred action script map =>
    s!"dropping deferred {action.title} of script {int script} on map {int map}: no such script"
  | levelBegun map opened => s!"map {int map}: {opened} open scripts started"
  | restored map tick scripts =>
    s!"restored map {int map} at tick {tick} with {scripts} scripts"
  | loaded layout size scripts functions arrays languages =>
    s!"loaded {layout.title} module: {size} bytes, {scripts} scripts, {functions} functions, " ++
      s!"{arrays} arrays, string tables {list (languages.map Language.listedName)}"
  | duplicateTable language =>
    s!"duplicate string table for language {language.displayName}; keeping the first"
  | duplicateScripts count => s!"{count} duplicate script numbers dropped"
  | unknownScriptEntry chunk script => s!"{chunk} entry for unknown script {int script}"
  | arrayOutsideScope array slot =>
    s!"array {array} bound to map variable {slot} outside the map scope"
  | undeclaredArray array => s!"AINI for undeclared array {array}"
  | labelNeverBound label => s!"label {label} was never bound"
  | ignoredSetting name value => s!"ignoring {name}={Text.quoted value}: not a valid value"
  | listingStopped kind id pc fault =>
    s!"{kind.title} {int id}: stopped at 0x{Text.upperHex pc.toNat}: {fault.message}"
  | specialRun special a l s =>
    s!"special {int special} {args a} (line {line? l}, {side s})"
  | performed effect => s!"effect {effect.describe}"
  | sideEffects count ticks => s!"{count} side effects over {ticks} ticks"
  | exported bodies directory => s!"wrote {bodies} bodies to {directory}"

end Diagnostic

/-- Diagnostics up to a severity, oldest first. -/
structure Journal where
  /-- The largest rank that is kept; 0 keeps nothing. -/
  detail : Nat
  entries : Array Diagnostic
  deriving Repr, Inhabited

namespace Journal

/-- A journal that keeps diagnostics at least as severe as given, or none. -/
def empty (least : Option Severity) : Journal :=
  ⟨(least.map Severity.rank).getD 0, #[]⟩

def note (j : Journal) (d : Diagnostic) : Journal :=
  if d.severity.rank ≤ j.detail then { j with entries := j.entries.push d } else j

def noteAll (j : Journal) (ds : List Diagnostic) : Journal := ds.foldl note j

/-- The entries as lines of text. -/
def lines (j : Journal) : List String :=
  j.entries.toList.map fun d => d.severity.title ++ ": " ++ d.message

end Journal

end LevelScript
