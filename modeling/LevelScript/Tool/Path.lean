/-!
# Paths

A path is a way through directories: each step goes down to a name or up again. A path that ends
in a slash or a dot leads to a directory only.
-/

namespace LevelScript.Tool

/-- A step on the way. -/
inductive Step where
  /-- To the directory that holds this one. -/
  | up
  | down (name : String)
  deriving DecidableEq, Repr, Inhabited

namespace Step

/-- The step that a part of a path stands for; an empty part and a dot stay where they are. -/
def ofPart? (part : String) : Option Step :=
  if part == "" || part == "." then none
  else if part == ".." then some .up
  else some (.down part)

def text : Step → String
  | .up => ".."
  | .down name => name

end Step

/-- How a path ends. -/
inductive Ending where
  /-- With its last step. -/
  | bare
  /-- With a slash after the last step. -/
  | slash
  /-- With a dot after the last step. -/
  | dot
  deriving DecidableEq, Repr, Inhabited

def Ending.text : Ending → String
  | .bare => ""
  | .slash => "/"
  | .dot => "/."

structure Path where
  /-- Whether it starts at the root. -/
  absolute : Bool
  steps : List Step
  ending : Ending
  deriving DecidableEq, Repr, Inhabited

namespace Path

def ofText (s : String) : Path :=
  let parts := s.splitOn "/"
  let ending := match parts.getLast? with
    | some "" => .slash
    | some "." => .dot
    | _ => .bare
  ⟨s.startsWith "/", parts.filterMap Step.ofPart?, ending⟩

def text (p : Path) : String :=
  let start := if p.absolute then "/" else if p.steps.isEmpty then "." else ""
  start ++ "/".intercalate (p.steps.map Step.text) ++
    if p.steps.isEmpty then "" else p.ending.text

/-- The path of a name in the directory that a path leads to. -/
def child (p : Path) (name : String) : Path := ⟨p.absolute, p.steps ++ [.down name], .bare⟩

/-- The way to the directory that holds what a path names, and the name; none for a path that
ends in a dot or goes up last. -/
def entry? (p : Path) : Option (List Step × String) :=
  match p.ending, p.steps.reverse with
  | .dot, _ => none
  | _, .down name :: before => some (before.reverse, name)
  | _, _ => none

end Path

end LevelScript.Tool
