import LevelScript.Tool.Path

/-!
# Files

What the tool needs of a file system.
-/

namespace LevelScript.Tool

/-- Why a file or a directory cannot be read or made. -/
inductive DiskError where
  | missing
  | alreadyThere
  | notADirectory
  | isADirectory
  | nameTooLong
  | other (message : String)
  deriving DecidableEq, Repr, Inhabited

def DiskError.message : DiskError → String
  | .missing => "No such file or directory (os error 2)"
  | .alreadyThere => "File exists (os error 17)"
  | .notADirectory => "Not a directory (os error 20)"
  | .isADirectory => "Is a directory (os error 21)"
  | .nameTooLong => "File name too long (os error 36)"
  | .other message => message

/-- Access to files by their paths. -/
class Disk (m : Type → Type) where
  read : Path → m (Except DiskError (List UInt8))
  write : Path → List UInt8 → m (Except DiskError Unit)
  /-- Whether a path leads to a file or a directory. -/
  isPresent : Path → m Bool
  isDirectory : Path → m Bool
  /-- Makes one directory in a directory that is there. -/
  makeDirectory : Path → m (Except DiskError Unit)

namespace Disk

variable {m : Type → Type} [Monad m] [Disk m]

/-- Makes a directory, unless it is there. -/
def needDirectory (p : Path) : m (Except DiskError Unit) := do
  match ← makeDirectory p with
  | .ok () => return .ok ()
  | .error e => return if ← isDirectory p then .ok () else .error e

/-- Makes a directory and those on the way to it, whose steps are given in reverse. The way ends
in its own manner; the ways before it end with their last steps. -/
def needWay (absolute : Bool) : Ending → List Step → m (Except DiskError Unit)
  | _, [] => return .ok ()
  | ending, step :: before => do
    let p : Path := ⟨absolute, (step :: before).reverse, ending⟩
    match ← needDirectory p with
    | .error .missing =>
      match ← needWay absolute .bare before with
      | .ok () => needDirectory p
      | .error e => return .error e
    | result => return result

/-- Makes a directory and those on the way to it, unless something is there already. -/
def makeDirectories (p : Path) : m (Except DiskError Unit) := do
  if ← isPresent p then return .ok () else needWay p.absolute p.ending p.steps.reverse

end Disk

end LevelScript.Tool
