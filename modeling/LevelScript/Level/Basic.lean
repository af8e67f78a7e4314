import LevelScript.Config
import LevelScript.Level.Roster

/-!
# Levels

A level is a program that runs on a map: the map's memory, the instances, and which of them are
tracked. Of every script at most one instance is tracked, the one that was not started besides
others; starting, suspending and ending a script by its number is about that one.

Between calls the operand stack and both queues are empty.
-/

namespace LevelScript

/-- Tracked instances by script number. -/
abbrev Registry := List (Int32 × Handle)

namespace Registry

def find? (r : Registry) (script : Int32) : Option Handle :=
  List.lookup script r

/-- Forgets what is tracked for a script. -/
def forget (r : Registry) (script : Int32) : Registry :=
  r.filter fun e => e.1 != script

def track (r : Registry) (script : Int32) (h : Handle) : Registry :=
  (script, h) :: r.forget script

end Registry

structure Level where
  program : Program
  config : Config
  map : Int32
  memory : MapMemory
  /-- The operand stack that instances share. -/
  stack : Array Slot
  roster : Roster
  tracked : Registry
  /-- Requests of scripts that are still to be acted on. -/
  pending : List Request
  /-- New instances whose first turn is due. -/
  ready : List Handle
  /-- Completed ticks. -/
  tick : UInt64
  /-- Whether an instance was ended from outside and is still there. -/
  reapPending : Bool
  deriving Inhabited

namespace Level

/-- A level at its start. -/
def start (program : Program) (map : Int32) (config : Config) : Level where
  program := program
  config := config
  map := map
  memory := program.memory
  stack := #[]
  roster := .empty
  tracked := []
  pending := []
  ready := []
  tick := 0
  reapPending := false

def isReplica (l : Level) : Bool := l.config.role == .replica

def instances (l : Level) : List Instance := l.roster.instances

def instance? (l : Level) (h : Handle) : Option Instance := l.roster.instance? h

/-! ## Tracked instances -/

/-- The tracked instance of a script. -/
def find? (l : Level) (script : Int32) : Option Handle := l.tracked.find? script

def isTracked (l : Level) (script : Int32) : Bool := (l.find? script).isSome

/-- What the tracked instance of a script is doing. -/
def status? (l : Level) (script : Int32) : Option Status :=
  ((l.find? script).bind l.instance?).map Instance.status

/-- Sets what the tracked instance of a script does, unless it is to be removed; tells whether
it did. -/
def setStatus (l : Level) (script : Int32) (s : Status) : Bool × Level :=
  match l.find? script with
  | none => (false, l)
  | some h =>
    match l.instance? h with
    | none => (false, l)
    | some i =>
      if i.status.isTerminal then (false, l)
      else (true, { l with
        roster := l.roster.modify h ({ · with status := s })
        reapPending := l.reapPending || s.isTerminal })

/-! ## The order of turns -/

/-- Lets an instance take its turns first; tells whether it lives. -/
def putFirst (l : Level) (h : Handle) : Bool × Level :=
  ((l.roster.cell? h).isSome, { l with roster := l.roster.putFirst h })

/-- Lets an instance take its turns last; tells whether it lives. -/
def putLast (l : Level) (h : Handle) : Bool × Level :=
  ((l.roster.cell? h).isSome, { l with roster := l.roster.putLast h })

/-! ## Waiting for scripts -/

/-- What an instance that waits for a script to start does once the script is tracked. -/
def promoted (script : Int32) (s : Status) : Status :=
  if s = .scriptWaitPre script then .scriptWait script else s

/-- All instances that wait for a script to start now wait for its end. -/
def promote (l : Level) (script : Int32) : Level :=
  { l with roster := l.roster.mapInstances fun i => { i with status := promoted script i.status } }

/-- An instance runs again, and takes its turns last. -/
def awaken (l : Level) (h : Handle) : Level :=
  { l with roster := (l.roster.modify h ({ · with status := .running })).putLast h }

/-- All instances that wait for the end of a script run again, in their order. -/
def wake (l : Level) (script : Int32) : Level :=
  (l.roster.handlesWhere fun i => i.status == .scriptWait script).foldl awaken l

/-! ## Instances come and go -/

/-- Removes an instance; those that waited for its script run again. -/
def remove (l : Level) (h : Handle) : Level :=
  match l.instance? h with
  | none => l
  | some i =>
    let tracked := if l.find? i.number = some h then l.tracked.forget i.number else l.tracked
    { l with roster := l.roster.erase h, tracked := tracked }.wake i.number

/-- Adds an instance, tracked unless it was started besides others. -/
def add (l : Level) (i : Instance) (always : Bool) : Handle × Level :=
  let (h, roster) := l.roster.add i
  if always then (h, { l with roster := roster })
  else (h, { l with roster := roster, tracked := l.tracked.track i.number h }.promote i.number)

/-- Drops every instance. -/
def terminateAll (l : Level) : Level :=
  { l with
    roster := l.roster.clear
    tracked := []
    pending := []
    ready := []
    stack := #[] }

end Level

end LevelScript
