import LevelScript.Level.Simulation

/-!
# Ticks and calls

What the game calls: to start a level, to start scripts, to pass requests on, and to let a tick
go by. Each call ends when nothing is left to do. A side that only replays effects runs nothing.

* `Simulation.settle` ends because every first turn counts against a limit, and a request leads
  to at most one of them.
-/

namespace LevelScript

/-! ## Queues are left alone -/

namespace Level

theorem pending_setStatus (l : Level) (script : Int32) (st : Status) :
    (l.setStatus script st).2.pending = l.pending := by
  unfold setStatus
  repeat' split
  all_goals rfl

theorem ready_setStatus (l : Level) (script : Int32) (st : Status) :
    (l.setStatus script st).2.ready = l.ready := by
  unfold setStatus
  repeat' split
  all_goals rfl

theorem pending_add (l : Level) (i : Instance) (always : Bool) :
    (l.add i always).2.pending = l.pending := by
  unfold add promote
  dsimp only
  split <;> rfl

theorem ready_add (l : Level) (i : Instance) (always : Bool) :
    (l.add i always).2.ready = l.ready := by
  unfold add promote
  dsimp only
  split <;> rfl

end Level

namespace Simulation

variable {ω : Type}

theorem pending_start (s : Simulation ω) (p : Launch) :
    (s.start p).2.level.pending = s.level.pending := by
  unfold start
  dsimp only
  repeat' split
  all_goals first
    | rfl
    | exact Level.pending_add ..

theorem length_ready_start (s : Simulation ω) (p : Launch) :
    (s.start p).2.level.ready.length ≤ s.level.ready.length + 1 := by
  unfold start
  dsimp only
  repeat' split
  all_goals first
    | exact Nat.le_succ _
    | skip
  simp only [enlist, note]
  split <;> simp [Level.ready_add]

variable [Host ω]

theorem level_deferredEntry (s : Simulation ω) (r : Request) :
    (s.deferredEntry r).2.level = s.level := by
  unfold deferredEntry
  split
  · rename_i activator _ _
    cases activator <;> rfl
  · rfl
  · rfl

theorem pending_route (s : Simulation ω) (r : Request) :
    (s.route r).2.level.pending = s.level.pending := by
  unfold route
  split
  · exact congrArg Level.pending (level_deferredEntry s r)
  · cases r with
    | execute => exact pending_start ..
    | suspend => exact Level.pending_setStatus ..
    | terminate => exact Level.pending_setStatus ..

theorem length_ready_route (s : Simulation ω) (r : Request) :
    (s.route r).2.level.ready.length ≤ s.level.ready.length + 1 := by
  unfold route
  split
  · have h := congrArg (fun l : Level => l.ready.length) (level_deferredEntry s r)
    exact Nat.le_succ_of_le (Nat.le_of_eq h)
  · cases r with
    | execute => exact length_ready_start ..
    | suspend =>
      have h := congrArg List.length (Level.ready_setStatus s.level ‹_› .suspended)
      exact Nat.le_succ_of_le (Nat.le_of_eq h)
    | terminate =>
      have h := congrArg List.length (Level.ready_setStatus s.level ‹_› .pleaseRemove)
      exact Nat.le_succ_of_le (Nat.le_of_eq h)

/-! ## Settling -/

omit [Host ω] in
/-- Leaves a new instance to the next tick. -/
def postpone (s : Simulation ω) (h : Handle) : Simulation ω :=
  (s.modifyLevel fun l =>
    { l with roster := l.roster.modify h ({ · with lastTick := l.tick }) }).note .tooManyStarts

omit [Host ω] in
/-- Takes the first request out of its queue. -/
def dropRequest (s : Simulation ω) : Simulation ω :=
  s.modifyLevel fun l => { l with pending := l.pending.tail }

omit [Host ω] in
/-- Takes the first new instance out of its queue. -/
def dropReady (s : Simulation ω) : Simulation ω :=
  s.modifyLevel fun l => { l with ready := l.ready.tail }

omit [Host ω] in
/-- What is left to do, counting that a request may lead to a first turn. -/
def work (s : Simulation ω) : Nat := 2 * s.level.pending.length + s.level.ready.length

theorem work_route_lt {s : Simulation ω} {r : Request} {rest : List Request}
    (h : s.level.pending = r :: rest) : (s.dropRequest.route r).2.work < s.work := by
  have h₁ := pending_route s.dropRequest r
  have h₂ := length_ready_route s.dropRequest r
  rw [work, work, h₁, h]
  simp only [dropRequest, modifyLevel, h, List.tail_cons, List.length_cons] at h₂ ⊢
  omega

omit [Host ω] in
theorem work_postpone_lt {s : Simulation ω} {h : Handle} {rest : List Handle}
    (hr : s.level.ready = h :: rest) : (s.dropReady.postpone h).work < s.work := by
  simp [work, postpone, dropReady, modifyLevel, note, hr]

/-- Acts on all requests and gives new instances their first turns until nothing is left to do.
`left` first turns are allowed; gives how many remain. -/
def settle (left : Nat) (s : Simulation ω) : Nat × Simulation ω :=
  match hp : s.level.pending with
  | r :: _ =>
    have := work_route_lt hp
    settle left (s.dropRequest.route r).2
  | [] =>
    match hr : s.level.ready with
    | [] => (left, s.reap)
    | h :: _ =>
      match left with
      | 0 =>
        have := work_postpone_lt hr
        settle 0 (s.dropReady.postpone h)
      | left + 1 => settle left (s.dropReady.visit h)
termination_by (left, s.work)

/-- First turns allowed in one tick or call. -/
def maxFirstTurns : Nat := 1024

/-- Finishes a call. -/
def settled (s : Simulation ω) : Simulation ω := (s.settle maxFirstTurns).2

/-! ## Calls -/

/-- Starts a script; tells whether anything was started. -/
def launch (s : Simulation ω) (p : Launch) : Bool × Simulation ω :=
  if s.level.isReplica then (false, s)
  else
    let (ok, s) := s.start p
    (ok, s.settled)

/-- Acts on a request or keeps it for its map; tells whether it had an effect. -/
def request (s : Simulation ω) (r : Request) : Bool × Simulation ω :=
  if s.level.isReplica then (false, s)
  else
    let (ok, s) := s.route r
    (ok, s.settled)

omit [Host ω] in
/-- Starts scripts one after the other; counts those that were. -/
def startAll (s : Simulation ω) (launches : List Launch) : Nat × Simulation ω :=
  launches.foldl (fun (n, s) p =>
    let (ok, s) := s.start p
    (if ok then n + 1 else n, s)) (0, s)

/-- Starts all scripts of a kind; counts those that were. -/
def startKind (s : Simulation ω) (kind : ScriptKind) (activator : Option Actor) (always : Bool) :
    Nat × Simulation ω :=
  if s.level.isReplica then (0, s)
  else
    let launch (script : Int32) : Launch :=
      { script := script, activator := activator, always := always }
    let (n, s) := s.startAll ((s.level.program.scriptsOfKind kind).map launch)
    (n, s.settled)

/-- The body a player has now, if there is a player. -/
def actorOf (s : Simulation ω) : Option UInt8 → Option Actor × Simulation ω
  | none => (none, s)
  | some p => s.ask (.playerActor p)

/-- Acts on an entry that waited for this map. -/
def deliver (s : Simulation ω) (e : DeferredEntry) : Simulation ω :=
  if (s.level.program.findScript e.script).isNone then
    s.note (.droppedDeferred e.action e.script e.map)
  else
    match e.action with
    | .suspend => (s.setStatus e.script .suspended).2
    | .terminate => (s.setStatus e.script .pleaseRemove).2
    | .execute | .executeAlways =>
      let (activator, s) := s.actorOf e.player
      (s.start { script := e.script, activator := activator, args := e.args
                 always := e.action == .executeAlways }).2

/-- Begins the level: acts on what waited for its map, then starts its opening scripts. -/
def begin (s : Simulation ω) : Simulation ω :=
  if s.level.isReplica then s
  else
    let map := s.level.map
    let waiting := s.session.deferred.waiting map
    let s := { s with session := { s.session with deferred := s.session.deferred.drop map } }
    let (opened, s) := (waiting.foldl deliver s).settled.startKind .opening none false
    s.note (.levelBegun map opened)

/-- Visits instances in turn, each followed by what it leads to. -/
def pass (s : Simulation ω) (handles : List Handle) : Simulation ω :=
  (handles.foldl (fun (left, s) h => (s.visit h).settle left) (maxFirstTurns, s)).2

/-- Lets one tick go by: every instance is visited once, in the order of turns. -/
def tick (s : Simulation ω) : Simulation ω :=
  if s.level.isReplica then s
  else
    let now := s.level.tick + 1
    let s := s.modifyLevel ({ · with tick := now })
    s.pass (s.level.roster.handlesWhere fun i => i.lastTick != now)

end Simulation

end LevelScript
