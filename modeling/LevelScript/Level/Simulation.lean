import LevelScript.Level.Basic
import LevelScript.Machine.Run

/-!
# Simulations

A level with all it lives in: the session, the world and the journal. What happens in a tick is
made of visits. A visit moves an instance's wait on and gives it a turn if it is ready; then the
requests of its turn are acted on and the instances they start take their first turns, until
nothing is left to do.

* `Simulation.visit` is one visit, `Simulation.settle` the work that follows.
* `Simulation.tick` visits every instance once, in the order of turns.
-/

namespace LevelScript

structure Simulation (ω : Type) where
  level : Level
  session : Session
  world : ω
  journal : Journal

namespace Simulation

variable {ω : Type}

def note (s : Simulation ω) (d : Diagnostic) : Simulation ω :=
  { s with journal := s.journal.note d }

def modifyLevel (s : Simulation ω) (f : Level → Level) : Simulation ω :=
  { s with level := f s.level }

/-- Asks the host. -/
def ask [Host ω] (s : Simulation ω) (c : Call) : c.Reply × Simulation ω :=
  let (reply, world) := Host.answer c s.world
  (reply, { s with world := world, journal := s.journal.noteAll (Host.remarks ω c) })

/-! ## Starting and removing instances -/

/-- Removes an instance. -/
def remove (s : Simulation ω) (h : Handle) : Simulation ω :=
  match s.level.instance? h with
  | none => s
  | some i => (s.modifyLevel (·.remove h)).note (.finished i.number)

/-- Removes the instances that were ended from outside. -/
def reap (s : Simulation ω) : Simulation ω :=
  if s.level.reapPending then
    (s.level.roster.handlesWhere fun i => i.status.isTerminal).foldl remove
      (s.modifyLevel ({ · with reapPending := false }))
  else s

/-- Adds an instance of a script, due for its first turn unless that is deferred. -/
def enlist (s : Simulation ω) (script : Script) (p : Launch) : Simulation ω :=
  let i := Instance.start script s.level.config.scriptLocals p.args.toList p.activator p.line p.side
  let (h, level) := s.level.add i p.always
  let ready := if p.deferStart then level.ready else level.ready ++ [h]
  { s with level := { level with ready := ready } }.note (.started p.script)

/-- Starts a script. A tracked instance is not started again, but one that is suspended runs
again. Tells whether anything was started. -/
def start (s : Simulation ω) (p : Launch) : Bool × Simulation ω :=
  match s.level.program.findScript p.script with
  | none => (false, s.note (.cannotStart p.script))
  | some script =>
    let tracked := if p.always then none else s.level.find? p.script
    match tracked.bind fun h => (s.level.instance? h).map (h, ·) with
    | some (h, i) =>
      if i.status = .suspended then
        (true, s.modifyLevel fun l =>
          { l with roster := l.roster.modify h ({ · with status := .running }) })
      else (false, s)
    | none => (true, s.enlist script p)

/-- Sets what the tracked instance of a script does. -/
def setStatus (s : Simulation ω) (script : Int32) (status : Status) : Bool × Simulation ω :=
  let (ok, level) := s.level.setStatus script status
  (ok, { s with level := level })

/-! ## Requests -/

variable [Host ω]

/-- Which player an actor is, if there is an actor. -/
def playerOf (s : Simulation ω) : Option Actor → Option UInt8 × Simulation ω
  | none => (none, s)
  | some a => s.ask (.playerNumber a)

/-- The entry that keeps a request for another map. -/
def deferredEntry (s : Simulation ω) : Request → DeferredEntry × Simulation ω
  | .execute map script args always activator _ _ =>
    let (player, s) := s.playerOf activator
    let action := if always then DeferredAction.executeAlways else .execute
    (⟨map, action, script, args, player⟩, s)
  | .suspend map script => (⟨map, .suspend, script, .zero, none⟩, s)
  | .terminate map script => (⟨map, .terminate, script, .zero, none⟩, s)

omit [Host ω] in
/-- Files an entry for another map. -/
def defer (s : Simulation ω) (e : DeferredEntry) : Simulation ω :=
  { s with session := s.session.defer e }.note (.deferring e.action e.script e.map)

omit [Host ω] in
/-- Acts on a request for this map. -/
def actOn (s : Simulation ω) : Request → Bool × Simulation ω
  | .execute _ script args always activator line side =>
    s.start ⟨script, activator, line, side, args, always, false⟩
  | .suspend _ script => s.setStatus script .suspended
  | .terminate _ script => s.setStatus script .pleaseRemove

/-- Acts on a request, or keeps it if it is for another map. -/
def route (s : Simulation ω) (r : Request) : Bool × Simulation ω :=
  if r.map ≠ 0 ∧ r.map ≠ s.level.map then
    let (e, s) := s.deferredEntry r
    (true, s.defer e)
  else s.actOn r

/-! ## Visits -/

omit [Host ω] in
/-- An instance that waits for a script to start waits for its end if the script is tracked. -/
def promoteIfTracked (l : Level) : Status → Status
  | .scriptWaitPre script =>
    if l.isTracked script then .scriptWait script else .scriptWaitPre script
  | status => status

/-- What an instance does when its turn comes. -/
def nextStatus (s : Simulation ω) : Status → Status × Simulation ω
  | .delayed ticks => (if ticks ≤ 1 then .running else .delayed (ticks - 1), s)
  | .tagWait tag =>
    let (busy, s) := s.ask (.sectorBusy tag)
    (if busy then .tagWait tag else .running, s)
  | .polyWait id =>
    let (busy, s) := s.ask (.polyobjBusy id)
    (if busy then .polyWait id else .running, s)
  | status => (promoteIfTracked s.level status, s)

/-- Gives an instance a turn. -/
def dispatch (s : Simulation ω) (i : Instance) : Instance × Simulation ω :=
  match s with
  | ⟨level, session, world, journal⟩ =>
    let stack := level.stack
    let memory := level.memory
    -- The level lends both to the machine.
    let level := { level with stack := #[], memory := .empty }
    let (executed, m) := Machine.run level.program level.config
      ⟨i, stack, memory, session, world, #[], journal⟩
    let level := { level with
      stack := m.stack
      memory := m.memory
      pending := level.pending ++ m.requests.toList }
    let i := { m.inst with status := promoteIfTracked level m.inst.status }
    (i, ⟨level, m.session, m.world, m.journal.note (.executed i.number executed)⟩)

/-- Moves an instance's wait on, and gives it a turn if it is ready. -/
def advance (s : Simulation ω) (i : Instance) : Instance × Simulation ω :=
  let (status, s) := s.nextStatus i.status
  let i := { i with lastTick := s.level.tick, status := status }
  if status = .running then s.dispatch i else (i, s)

omit [Host ω] in
/-- Puts an instance back where it was. -/
def seat (s : Simulation ω) (h : Handle) (i : Instance) : Simulation ω :=
  s.modifyLevel fun l => { l with roster := l.roster.replace h i }

omit [Host ω] in
/-- Puts an instance back after its turn, or removes it if it ended. -/
def putBack (s : Simulation ω) (h : Handle) (i : Instance) : Simulation ω :=
  let s := s.seat h i
  if i.status.isTerminal then s.remove h else s

omit [Host ω] in
/-- Whether an instance is still to be visited in this tick. -/
def isDue (s : Simulation ω) (i : Instance) : Bool :=
  i.lastTick != s.level.tick || s.level.tick == 0

/-- Visits an instance, at most once in a tick. -/
def visit (s : Simulation ω) (h : Handle) : Simulation ω :=
  match s.level.instance? h with
  | none => s
  | some i =>
    if s.isDue i then
      let (i, s) := s.advance i
      s.putBack h i
    else s

end Simulation

end LevelScript
