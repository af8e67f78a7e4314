import LevelScript.Program.Memory
import LevelScript.Strings

/-!
# Programs

What loading an image gives: its scripts and functions, its texts, and the map memory it starts
with. Scripts are found by number, functions by their place in the table.
-/

namespace LevelScript

/-- What starts a script. -/
inductive ScriptKind where
  | closed
  | opening
  | respawn
  | death
  | enter
  | pickup
  | blueReturn
  | redReturn
  | whiteReturn
  | lightning
  | unloading
  | disconnect
  | returning
  deriving DecidableEq, Repr, Inhabited

namespace ScriptKind

def all : List ScriptKind :=
  [closed, opening, respawn, death, enter, pickup, blueReturn, redReturn, whiteReturn, lightning,
    unloading, disconnect, returning]

/-- The number of the kind in an image. -/
def tag : ScriptKind → UInt16
  | closed => 0
  | opening => 1
  | respawn => 2
  | death => 3
  | enter => 4
  | pickup => 5
  | blueReturn => 6
  | redReturn => 7
  | whiteReturn => 8
  | lightning => 12
  | unloading => 13
  | disconnect => 14
  | returning => 15

def title : ScriptKind → String
  | closed => "Closed"
  | opening => "Open"
  | respawn => "Respawn"
  | death => "Death"
  | enter => "Enter"
  | pickup => "Pickup"
  | blueReturn => "BlueReturn"
  | redReturn => "RedReturn"
  | whiteReturn => "WhiteReturn"
  | lightning => "Lightning"
  | unloading => "Unloading"
  | disconnect => "Disconnect"
  | returning => "Return"

def ofTag? (t : UInt16) : Option ScriptKind := all.find? (·.tag == t)

def ofTitle? (s : String) : Option ScriptKind := all.find? (·.title == s)

end ScriptKind

/-- Flags of a script. Only two bits mean something. -/
structure ScriptFlags where
  bits : UInt16
  deriving DecidableEq, Repr, Inhabited

namespace ScriptFlags

def none : ScriptFlags := ⟨0⟩

/-- Keeps the bits that mean something. -/
def truncate (bits : UInt16) : ScriptFlags := ⟨bits &&& 3⟩

def net (f : ScriptFlags) : Bool := f.bits &&& 1 != 0

def clientSide (f : ScriptFlags) : Bool := f.bits &&& 2 != 0

end ScriptFlags

structure Script where
  number : Int32
  /-- The number of the script's kind, which may be unknown. -/
  typeTag : UInt16
  argCount : UInt8
  /-- Offset of the first instruction. -/
  entry : UInt32
  flags : ScriptFlags
  /-- How many variables the script declares, if it does. -/
  localCount : Option UInt16
  deriving DecidableEq, Repr, Inhabited

def Script.kind? (s : Script) : Option ScriptKind := ScriptKind.ofTag? s.typeTag

structure Function where
  argCount : UInt8
  localCount : UInt8
  hasReturn : Bool
  /-- Not zero when another module has the code. -/
  importTag : UInt8
  entry : UInt32
  deriving DecidableEq, Repr, Inhabited

namespace Function

def isImported (f : Function) : Bool := f.importTag != 0

/-- Slots of a call: the arguments and the other variables. -/
def frameSize (f : Function) : Nat := max f.argCount.toNat f.localCount.toNat

end Function

structure Program where
  image : Image
  layout : Layout
  /-- In ascending order of their numbers, each number once. -/
  scripts : List Script
  functions : Array Function
  strings : Strings
  /-- What the map's variables and arrays hold at first. -/
  memory : MapMemory
  deriving DecidableEq, Repr, Inhabited

namespace Program

def codeWidth (p : Program) : CodeWidth := p.layout.codeWidth

def fingerprint (p : Program) : Fingerprint := p.image.fingerprint

def findScript (p : Program) (number : Int32) : Option Script :=
  p.scripts.find? (·.number == number)

def function? (p : Program) (index : UInt32) : Option Function := p.functions[index.toNat]?

def text? (p : Program) (index : Int32) (locale : Language) : Option String :=
  p.strings.lookup index locale

/-- Numbers of the scripts of a kind, ascending. -/
def scriptsOfKind (p : Program) (kind : ScriptKind) : List Int32 :=
  (p.scripts.filter fun s => s.kind? == some kind).map (·.number)

end Program

end LevelScript
