import LevelScript.Tool.Disk

/-!
# File trees

A file system that is a plain value. A path is followed step by step: each step starts from a
directory, and goes down only to what is there.
-/

namespace LevelScript.Tool

/-- Where a file or a directory stands: the names from the root. -/
abbrev Place := List String

/-- Files and directories by their places. The root is always there. -/
structure FileTree where
  files : List (Place × List UInt8)
  directories : List Place
  deriving DecidableEq, Repr, Inhabited

namespace FileTree

def isDirectory (t : FileTree) (place : Place) : Bool :=
  place.isEmpty || t.directories.contains place

def isPresent (t : FileTree) (place : Place) : Bool :=
  t.isDirectory place || (t.files.lookup place).isSome

/-- The longest name, in bytes. -/
def longestName : Nat := 255

/-! ## Following a path -/

def follow (t : FileTree) (place : Place) (step : Step) : Except DiskError Place :=
  if !t.isDirectory place then .error .notADirectory
  else
    match step with
    | .up => .ok place.dropLast
    | .down name =>
      if t.isPresent (place ++ [name]) then .ok (place ++ [name])
      else .error (if longestName < name.utf8ByteSize then .nameTooLong else .missing)

/-- Where steps lead to from the root. -/
def walk (t : FileTree) (steps : List Step) : Except DiskError Place := steps.foldlM t.follow []

/-- What a path leads to. -/
def locate (t : FileTree) (p : Path) : Except DiskError Place := do
  let place ← t.walk p.steps
  if p.ending = .bare || t.isDirectory place then .ok place else .error .notADirectory

/-- Where something with a name of its own would stand. -/
def vacancy (t : FileTree) (before : List Step) (name : String) : Except DiskError Place := do
  let place ← t.walk before
  if !t.isDirectory place then .error .notADirectory
  else if longestName < name.utf8ByteSize then .error .nameTooLong
  else .ok (place ++ [name])

/-! ## Reading and writing -/

def read (t : FileTree) (p : Path) : Except DiskError (List UInt8) := do
  let place ← t.locate p
  match t.files.lookup place with
  | some bytes => .ok bytes
  | none => .error .isADirectory

/-- Writes a file, in the place of the one that was there. -/
def write (t : FileTree) (p : Path) (bytes : List UInt8) : Except DiskError FileTree :=
  match p.entry? with
  | some (before, name) => do
    let place ← t.vacancy before name
    if p.ending = .slash || t.isDirectory place then .error .isADirectory
    else .ok { t with files := (place, bytes) :: t.files.filter fun f => f.1 != place }
  | none => do
    let _ ← t.locate p
    .error .isADirectory

def makeDirectory (t : FileTree) (p : Path) : Except DiskError FileTree :=
  match p.entry? with
  | some (before, name) => do
    let place ← t.vacancy before name
    if t.isPresent place then .error .alreadyThere
    else .ok { t with directories := place :: t.directories }
  | none => do
    let _ ← t.locate p
    .error .alreadyThere

/-- Applies a change to the tree, unless it fails. -/
def change (f : FileTree → Except DiskError FileTree) : StateM FileTree (Except DiskError Unit) :=
  fun t =>
    match f t with
    | .ok t => (.ok (), t)
    | .error e => (.error e, t)

instance : Disk (StateM FileTree) where
  read p := fun t => (t.read p, t)
  write p bytes := change (·.write p bytes)
  isPresent p := fun t => ((t.locate p).isOk, t)
  isDirectory p := fun t => ((t.locate p).toOption.any t.isDirectory, t)
  makeDirectory p := change (·.makeDirectory p)

/-! ## Building a tree -/

/-- Adds a file, and the directories on the way to it. -/
def addFile (t : FileTree) (place : Place) (bytes : List UInt8) : FileTree :=
  { files := (place, bytes) :: t.files.filter fun f => f.1 != place
    directories := t.directories ++ (List.range place.length).map place.take }

end FileTree

end LevelScript.Tool
