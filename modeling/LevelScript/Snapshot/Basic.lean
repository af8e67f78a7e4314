import LevelScript.Bytes.Codec
import LevelScript.Level.Basic

/-!
# Snapshots

All that has to be kept of a level between ticks. Code offsets are offsets into the image and
frames are offsets into an instance's own segment, so a snapshot can be restored wherever the
same image was loaded.
-/

namespace LevelScript

structure SavedInstance where
  number : Int32
  pc : UInt32
  status : Status
  locals : Array Int32
  activator : Option Actor
  line : Option Line
  side : Side
  segment : Array Slot
  frame : Frame
  function : Option UInt32
  print : String
  hudMark : Option UInt32
  result : Int32
  lastTick : UInt64
  /-- Whether the instance is the tracked one of its script. -/
  tracked : Bool
  deriving DecidableEq, Repr, Inhabited

structure Snapshot where
  map : Int32
  fingerprint : Fingerprint
  mapVars : Array Int32
  mapArrays : Array (Array Int32)
  /-- In the order of turns. -/
  instances : List SavedInstance
  tick : UInt64
  deriving DecidableEq, Repr, Inhabited

/-- A part of saved state that can have the wrong shape. -/
inductive SavedShape where
  | mapMemory
  | segment
  | sessionScopes
  deriving DecidableEq, Repr, Inhabited

def SavedShape.title : SavedShape → String
  | .mapMemory => "map variables or arrays"
  | .segment => "instance stack segment exceeds capacity"
  | .sessionScopes => "session scope sizes"

/-- Why saved state is refused. -/
inductive SaveError where
  | decode (error : DecodeError)
  | otherImage (expected found : Fingerprint)
  | pcOutOfRange (script : Int32) (pc : UInt32)
  | unknownScript (script : Int32)
  | shape (part : SavedShape)
  deriving DecidableEq, Repr

def Fingerprint.describe (f : Fingerprint) : String :=
  "ModuleFingerprint \x7b len: " ++ toString f.length ++ ", sha256: " ++
    Describe.list (f.digest.toList.map fun b => toString b) ++ " \x7d"

def SaveError.message : SaveError → String
  | .decode error => s!"cannot decode snapshot: {error.message}"
  | .otherImage expected found =>
    s!"snapshot belongs to another module ({found.describe}, expected {expected.describe})"
  | .pcOutOfRange script pc =>
    s!"script {script.toInt}: saved pc 0x{Text.upperHex pc.toNat} is outside the module"
  | .unknownScript script => s!"script {script.toInt} is not in the module"
  | .shape part => s!"snapshot does not match the module layout: {part.title}"

/-! ## Taking -/

/-- What is kept of an instance. -/
def Instance.save (i : Instance) (tracked : Bool) : SavedInstance where
  number := i.number
  pc := i.pc
  status := i.status
  locals := i.locals
  activator := i.activator
  line := i.line
  side := i.side
  segment := i.segment
  frame := i.frame
  function := i.function
  print := i.print
  hudMark := i.hudMark
  result := i.result
  lastTick := i.lastTick
  tracked := tracked

/-- The snapshot of a level. -/
def Level.snapshot (l : Level) : Snapshot where
  map := l.map
  fingerprint := l.program.fingerprint
  mapVars := l.memory.vars.toArray
  mapArrays := l.memory.arrays
  instances := l.roster.entries.map fun (h, i) => i.save (l.find? i.number == some h)
  tick := l.tick

/-! ## Restoring -/

/-- An instance as it was saved, of a script that is loaded again. -/
def SavedInstance.resume (s : SavedInstance) (script : Script) : Instance where
  number := script.number
  typeTag := script.typeTag
  entry := script.entry
  pc := s.pc
  status := s.status
  locals := s.locals
  activator := s.activator
  line := s.line
  side := s.side
  segment := s.segment
  frame := s.frame
  function := s.function
  print := s.print
  hudMark := s.hudMark
  result := s.result
  lastTick := s.lastTick

/-- Checks a saved instance against the program. -/
def SavedInstance.restore (program : Program) (config : Config) (s : SavedInstance) :
    Except SaveError (Instance × Bool) :=
  match program.findScript s.number with
  | none => .error (.unknownScript s.number)
  | some script =>
    if program.image.size.toUInt32 ≤ s.pc then .error (.pcOutOfRange s.number s.pc)
    else if config.stackCapacity < s.segment.size then .error (.shape .segment)
    else .ok (s.resume script, s.tracked)

/-- The map's memory as it was saved, if it has the shape that the program declares. -/
def Snapshot.memory? (s : Snapshot) (program : Program) : Option MapMemory :=
  if h : s.mapVars.size = mapVarCount then
    if MapMemory.sameShape s.mapArrays program.memory.arrays then
      some ⟨⟨s.mapVars, h⟩, s.mapArrays⟩
    else none
  else none

namespace Level

/-- Adds a restored instance. -/
def addRestored (l : Level) (e : Instance × Bool) : Level :=
  let (h, roster) := l.roster.add e.1
  { l with
    roster := roster
    tracked := if e.2 then l.tracked.track e.1.number h else l.tracked }

/-- A level as it was saved, on a program loaded again. -/
def restore (program : Program) (s : Snapshot) (config : Config) : Except SaveError Level :=
  if program.fingerprint ≠ s.fingerprint then
    .error (.otherImage program.fingerprint s.fingerprint)
  else
    match s.memory? program with
    | none => .error (.shape .mapMemory)
    | some memory => do
      let instances ← s.instances.mapM (SavedInstance.restore program config)
      let level := { Level.start program s.map config with memory := memory, tick := s.tick }
      pure (instances.foldl addRestored level)

/-- What restoring a snapshot reports. -/
def restoredReport (s : Snapshot) : Diagnostic :=
  .restored s.map s.tick s.instances.length

end Level

end LevelScript
