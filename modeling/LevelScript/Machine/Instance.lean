import LevelScript.Program.Basic

/-!
# Instances

One run of a script: where it is, what it waits for, its variables, who started it, and what it
left on the operand stack. Calls of functions leave their records on that stack too.
-/

namespace LevelScript

/-- What an instance is doing. -/
inductive Status where
  | running
  /-- Until it is resumed. -/
  | suspended
  /-- Ticks left. -/
  | delayed (ticks : UInt32)
  /-- Until no sector with the tag moves. -/
  | tagWait (tag : Int32)
  | polyWait (id : Int32)
  /-- Until the script is started. -/
  | scriptWaitPre (script : Int32)
  /-- Until the script has ended. -/
  | scriptWait (script : Int32)
  | pleaseRemove
  | divideByZero
  | modulusByZero
  deriving DecidableEq, Repr, Inhabited

namespace Status

/-- Whether the instance is to be removed. -/
def isTerminal : Status → Bool
  | pleaseRemove | divideByZero | modulusByZero => true
  | _ => false

def title : Status → String
  | running => "Running"
  | suspended => "Suspended"
  | delayed ticks => s!"Delayed({ticks})"
  | tagWait tag => s!"TagWait({tag.toInt})"
  | polyWait id => s!"PolyWait({id.toInt})"
  | scriptWaitPre script => s!"ScriptWaitPre({script.toInt})"
  | scriptWait script => s!"ScriptWait({script.toInt})"
  | pleaseRemove => "PleaseRemove"
  | divideByZero => "DivideBy0"
  | modulusByZero => "ModulusBy0"

end Status

/-- Where the current variables are. -/
inductive Frame where
  /-- The script's own, in the instance. -/
  | script
  /-- A function's, so many slots above the start of the instance's segment. -/
  | stack (base : UInt32)
  deriving DecidableEq, Repr, Inhabited

/-- What a call leaves above the function's variables, to find its way back. -/
structure ReturnRecord where
  returnPc : UInt32
  callerFrame : Frame
  callerFunction : Option UInt32
  discardResult : Bool
  deriving DecidableEq, Repr, Inhabited

/-- A slot of the operand stack. -/
inductive Slot where
  | value (v : Int32)
  | record (r : ReturnRecord)
  deriving DecidableEq, Repr, Inhabited

structure Instance where
  number : Int32
  typeTag : UInt16
  entry : UInt32
  /-- The offset of the next instruction. -/
  pc : UInt32
  status : Status
  locals : Array Int32
  activator : Option Actor
  line : Option Line
  side : Side
  /-- Its part of the operand stack, while it does not run. -/
  segment : Array Slot
  frame : Frame
  function : Option UInt32
  /-- Text printed so far. -/
  print : String
  /-- How many slots there were before the optional numbers of a screen message. -/
  hudMark : Option UInt32
  /-- What the last special gave that was asked for its result. -/
  result : Int32
  /-- The tick of its last turn. -/
  lastTick : UInt64
  deriving DecidableEq, Repr, Inhabited

namespace Instance

/-- A new run of a script. It has as many variables as the settings, the script and its
arguments need, and takes as many arguments as it has. -/
def start (s : Script) (leastLocals : Nat) (args : List Int32) (activator : Option Actor)
    (line : Option Line) (side : Side) : Instance :=
  let size := max (max leastLocals ((s.localCount.map UInt16.toNat).getD 0)) s.argCount.toNat
  let given := args.take s.argCount.toNat
  { number := s.number
    typeTag := s.typeTag
    entry := s.entry
    pc := s.entry
    status := .running
    locals := (given ++ List.replicate (size - given.length) 0).toArray
    activator := activator
    line := line
    side := side
    segment := #[]
    frame := .script
    function := none
    print := ""
    hudMark := none
    result := 0
    lastTick := 0 }

end Instance

end LevelScript
