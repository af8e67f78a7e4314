/-!
# Things in the world

What scripts can name: actors, lines of the map and their sides, surfaces of a sector, and the
ways a line can block.
-/

namespace LevelScript

/-- A reference to an actor. Once the actor is gone the generation no longer matches, and the
handle stops meaning anything. -/
structure Actor where
  index : UInt32
  generation : UInt32
  deriving DecidableEq, Repr, Inhabited

/-- A line of the map, by its number. -/
structure Line where
  number : UInt32
  deriving DecidableEq, Repr, Inhabited

inductive Side where
  | front
  | back
  deriving DecidableEq, Repr, Inhabited

namespace Side

def toInt : Side → Int32
  | .front => 0
  | .back => 1

/-- Every number but zero is the back. -/
def ofInt (v : Int32) : Side :=
  if v == 0 then .front else .back

end Side

inductive Surface where
  | floor
  | ceiling
  deriving DecidableEq, Repr, Inhabited

/-- Whom a line stops. -/
inductive Blocking where
  | all
  | monsters
  deriving DecidableEq, Repr, Inhabited

inductive Axis where
  | x
  | y
  | z
  deriving DecidableEq, Repr, Inhabited

structure Position where
  x : Int32
  y : Int32
  z : Int32
  deriving DecidableEq, Repr, Inhabited

def Position.coordinate (p : Position) : Axis → Int32
  | .x => p.x
  | .y => p.y
  | .z => p.z

/-- The five arguments of a line special. -/
structure SpecialArgs where
  a₀ : Int32
  a₁ : Int32
  a₂ : Int32
  a₃ : Int32
  a₄ : Int32
  deriving DecidableEq, Repr, Inhabited

def SpecialArgs.toList (a : SpecialArgs) : List Int32 :=
  [a.a₀, a.a₁, a.a₂, a.a₃, a.a₄]

/-- The first five numbers of a list, zeros where it ends. -/
def SpecialArgs.ofList (l : List Int32) : SpecialArgs :=
  ⟨l.getD 0 0, l.getD 1 0, l.getD 2 0, l.getD 3 0, l.getD 4 0⟩

/-- The three arguments a script is started with. -/
structure ScriptArgs where
  a₀ : Int32
  a₁ : Int32
  a₂ : Int32
  deriving DecidableEq, Repr, Inhabited

def ScriptArgs.zero : ScriptArgs := ⟨0, 0, 0⟩

def ScriptArgs.toList (a : ScriptArgs) : List Int32 :=
  [a.a₀, a.a₁, a.a₂]

/-! ## Requests and launches

A script can ask for other scripts to be started, suspended or ended, on its own map or on
another one. A launch is a start as the game itself asks for it. -/

/-- What a script asks of other scripts. Map 0 is the current map. -/
inductive Request where
  | execute (map script : Int32) (args : ScriptArgs) (always : Bool) (activator : Option Actor)
      (line : Option Line) (side : Side)
  | suspend (map script : Int32)
  | terminate (map script : Int32)
  deriving DecidableEq, Repr, Inhabited

namespace Request

def map : Request → Int32
  | execute m .. | suspend m _ | terminate m _ => m

def script : Request → Int32
  | execute _ s .. | suspend _ s | terminate _ s => s

end Request

structure Launch where
  script : Int32
  activator : Option Actor := none
  line : Option Line := none
  side : Side := .front
  args : ScriptArgs := .zero
  /-- Start one more instance even if one is tracked, and do not track it. -/
  always : Bool := false
  /-- Leave the first run to the next tick. -/
  deferStart : Bool := false
  deriving DecidableEq, Repr, Inhabited

end LevelScript
