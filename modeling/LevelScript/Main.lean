import LevelScript.Tool.Run

/-!
# The command line

Runs the tool on the real file system. Reports go to standard error, up to the severity that the
variable `ACS_LOG` names.
-/

namespace LevelScript.Tool

/-- What went wrong with a file. -/
def diskError (e : IO.Error) : DiskError :=
  match e with
  | .noFileOrDirectory .. => .missing
  | .alreadyExists .. => .alreadyThere
  | .inappropriateType _ code _ => if code = 21 then .isADirectory else .notADirectory
  | e => .other (toString e)

/-- The outcome of an action that may fail. -/
def attempt {α : Type} (action : IO α) : IO (Except DiskError α) := do
  match ← action.toBaseIO with
  | .ok a => return .ok a
  | .error e => return .error (diskError e)

/-- Whether an action does not fail. -/
def succeeds {α : Type} (action : IO α) : IO Bool := do return (← attempt action).isOk

instance : Disk IO where
  read path := attempt do return (← IO.FS.readBinFile path.text).data.toList
  write path bytes := attempt (IO.FS.writeBinFile path.text ⟨bytes.toArray⟩)
  isPresent path := succeeds (IO.FS.Handle.mk path.text .read)
  isDirectory path := succeeds (IO.FS.Handle.mk { path with ending := .dot }.text .read)
  makeDirectory path := attempt (IO.FS.createDir path.text)

def usage : String :=
  "Usage: acs-dis --input <INPUT> [--encoding <ENCODING>] <export|disasm|run> [OPTIONS]\n"

/-- Where settings are looked up. -/
def environment (names : List String) : IO (List (String × String)) :=
  names.filterMapM fun name => do return (← IO.getEnv name).map (name, ·)

/-- Prints what the tool left behind. -/
def printOutcome (o : Outcome) : IO Unit := do
  IO.print o.output
  for l in o.journal.lines do
    IO.eprintln l
  match o.failure with
  | none => pure ()
  | some f =>
    IO.eprintln s!"Error: {f.line}"
    match f.cause with
    | some cause => IO.eprintln s!"\nCaused by:\n    {cause}"
    | none => pure ()

end LevelScript.Tool

open LevelScript LevelScript.Tool in
def main (arguments : List String) : IO UInt32 := do
  let settings ← environment
    ["ACS_VM_INSTRUCTION_LIMIT", "ACS_VM_STACK_CAPACITY", "ACS_VM_LOCALE", "ACS_LOG"]
  let least := match settings.lookup "ACS_LOG" with
    | some name => Severity.ofName? name
    | none => some .info
  let o ← Tool.run arguments (settings.lookup ·) (.empty least)
  if o.exitCode != 1 && (Arguments.parse arguments).toOption.isNone then IO.eprint usage
  printOutcome o
  return o.exitCode.toUInt32
