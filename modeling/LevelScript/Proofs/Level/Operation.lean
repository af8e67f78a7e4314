import LevelScript.Level.Tick

/-!
# Calls and their acts

All a game can ask of a level is an `Operation`. What happens in it is a list of acts, each of
which is one change: a request is acted on, an instance takes a turn, an instance is removed.

* `Operation.run` performs an operation; `Simulation.play` a list of them.
* `Level.Reachable`: the levels that operations lead to, with any session and host at each.
* `Operation.run_eq_acts`: an operation is its acts, one after the other.
* `Simulation.settleActs_induct`, `Simulation.passActs_induct`, `Operation.acts_induct`: the pieces
  that the acts of settling, of a tick and of an operation are made of.
* `Operation.run_induct`: what visits and all acts but turns keep, operations keep.
* `Operation.run_of_settled`: what settling brings about, operations keep.
-/

namespace LevelScript

/-! ## Operations -/

/-- An instance, as a caller names it. -/
inductive Which where
  | handle (h : Handle)
  /-- The tracked instance of a script. -/
  | script (number : Int32)
  /-- By its place in the order of turns. -/
  | place (index : Nat)
  deriving DecidableEq, Repr

def Which.find? (l : Level) : Which → Option Handle
  | handle h => some h
  | script number => l.find? number
  | place index => l.roster.handles[index]?

/-- What a game can ask of a level. -/
inductive Operation where
  | begin
  | launch (p : Launch)
  | request (r : Request)
  | startKind (kind : ScriptKind) (activator : Option Actor) (always : Bool)
  | tick
  | putFirst (which : Which)
  | putLast (which : Which)
  | setStatus (script : Int32) (status : Status)
  | setVar (index : Nat) (value : Int32)
  | setElement (array index value : Int32)
  | terminateAll
  deriving DecidableEq, Repr

/-- What an operation tells its caller. -/
inductive Outcome where
  | nothing
  | flag (b : Bool)
  | count (n : Nat)
  deriving DecidableEq, Repr

namespace Simulation

variable {ω : Type}

/-- Moves an instance in the order of turns. -/
def reorder (s : Simulation ω) (move : Level → Handle → Bool × Level) (which : Which) :
    Outcome × Simulation ω :=
  match which.find? s.level with
  | none => (.flag false, s)
  | some h => (.flag (move s.level h).1, { s with level := (move s.level h).2 })

def setVar (s : Simulation ω) (index : Nat) (value : Int32) : Simulation ω :=
  s.modifyLevel fun l => { l with memory := l.memory.setVar index value }

def setElement (s : Simulation ω) (array index value : Int32) : Simulation ω :=
  s.modifyLevel fun l => { l with memory := l.memory.setElement array index value }

end Simulation

/-- Performs an operation. -/
def Operation.run {ω : Type} [Host ω] (s : Simulation ω) : Operation → Outcome × Simulation ω
  | begin => (.nothing, s.begin)
  | launch p => (.flag (s.launch p).1, (s.launch p).2)
  | request r => (.flag (s.request r).1, (s.request r).2)
  | startKind kind activator always =>
    (.count (s.startKind kind activator always).1, (s.startKind kind activator always).2)
  | tick => (.nothing, s.tick)
  | putFirst which => s.reorder Level.putFirst which
  | putLast which => s.reorder Level.putLast which
  | setStatus script status =>
    (.flag (s.setStatus script status).1, (s.setStatus script status).2)
  | setVar index value => (.flag (decide (index < mapVarCount)), s.setVar index value)
  | setElement array index value => (.nothing, s.setElement array index value)
  | terminateAll => (.nothing, s.modifyLevel Level.terminateAll)

/-- Performs operations one after the other; gives what they tell, in order. -/
def Simulation.play {ω : Type} [Host ω] (s : Simulation ω) :
    List Operation → List Outcome × Simulation ω
  | [] => ([], s)
  | op :: ops => ((op.run s).1 :: ((op.run s).2.play ops).1, ((op.run s).2.play ops).2)

/-- Levels that allowed operations lead to. At each of them the session and the host may be
others. -/
inductive Level.Reachable (origin : Level → Prop) (allowed : Operation → Prop) : Level → Prop
  | origin {l : Level} (h : origin l) : Reachable origin allowed l
  | run {ω : Type} [Host ω] {s : Simulation ω} {op : Operation}
      (h : Reachable origin allowed s.level) (hop : allowed op) :
      Reachable origin allowed (op.run s).2.level

namespace Simulation

variable {ω : Type}

/-- Starting a script touches the level and the journal only. -/
theorem start_frame (s : Simulation ω) (p : Launch) :
    (s.start p).2.session = s.session ∧ (s.start p).2.world = s.world := by
  unfold start
  dsimp only
  repeat' split
  all_goals exact ⟨rfl, rfl⟩

/-- So does removing an instance. -/
theorem remove_frame (s : Simulation ω) (h : Handle) :
    (s.remove h).session = s.session ∧ (s.remove h).world = s.world := by
  unfold remove
  split
  · exact ⟨rfl, rfl⟩
  · exact ⟨rfl, rfl⟩

end Simulation

/-! ## Acts -/

/-- One change within an operation. -/
inductive Act where
  /-- The next tick begins. -/
  | tick
  /-- The first request in the queue is taken out. -/
  | takeRequest
  /-- The first of the new instances is taken out of its queue. -/
  | takeReady
  /-- What waited for the map in the session is taken out. -/
  | takeDeferred
  /-- All instances that were ended from outside are about to be removed. -/
  | reap
  | note (d : Diagnostic)
  | route (r : Request)
  | start (p : Launch)
  | deliver (e : DeferredEntry)
  | setStatus (script : Int32) (status : Status)
  /-- An instance's wait moves on, and it runs if it is ready. -/
  | turn (h : Handle)
  /-- The first of the new instances is taken out of its queue, without a turn. -/
  | postpone (h : Handle)
  | remove (h : Handle)
  | putFirst (h : Handle)
  | putLast (h : Handle)
  | setVar (index : Nat) (value : Int32)
  | setElement (array index value : Int32)
  | terminateAll
  deriving DecidableEq, Repr

namespace Simulation

variable {ω : Type} [Host ω] (s : Simulation ω)

/-- An instance's wait moves on, and it runs if it is ready; it stays in its cell. -/
def turn (s : Simulation ω) (h : Handle) : Simulation ω :=
  match s.level.instance? h with
  | none => s
  | some i => (s.advance i).2.seat h (s.advance i).1

omit [Host ω] in
/-- Takes what waits for the map out of the session. -/
def takeDeferred (s : Simulation ω) : Simulation ω :=
  { s with session := { s.session with deferred := s.session.deferred.drop s.level.map } }

def act (s : Simulation ω) : Act → Simulation ω
  | .tick => s.modifyLevel fun l => { l with tick := l.tick + 1 }
  | .takeRequest => s.dropRequest
  | .takeReady => s.dropReady
  | .takeDeferred => s.takeDeferred
  | .reap => s.modifyLevel ({ · with reapPending := false })
  | .note d => s.note d
  | .route r => (s.route r).2
  | .start p => (s.start p).2
  | .deliver e => s.deliver e
  | .setStatus script status => (s.setStatus script status).2
  | .turn h => s.turn h
  | .postpone h => s.dropReady.postpone h
  | .remove h => s.remove h
  | .putFirst h => { s with level := (s.level.putFirst h).2 }
  | .putLast h => { s with level := (s.level.putLast h).2 }
  | .setVar index value => s.setVar index value
  | .setElement array index value => s.setElement array index value
  | .terminateAll => s.modifyLevel Level.terminateAll

/-- Acts one after the other. -/
def actAll (s : Simulation ω) (acts : List Act) : Simulation ω := acts.foldl act s

@[simp] theorem actAll_nil : s.actAll [] = s := rfl

@[simp] theorem actAll_cons (a : Act) (acts : List Act) :
    s.actAll (a :: acts) = (s.act a).actAll acts := rfl

@[simp] theorem actAll_append (xs ys : List Act) :
    s.actAll (xs ++ ys) = (s.actAll xs).actAll ys := List.foldl_append

/-- The moments of acts one after the other, each with its act. -/
def moments (s : Simulation ω) : List Act → List (Simulation ω × Act)
  | [] => []
  | a :: rest => (s, a) :: (s.act a).moments rest

theorem moments_append (xs ys : List Act) :
    s.moments (xs ++ ys) = s.moments xs ++ (s.actAll xs).moments ys := by
  induction xs generalizing s with
  | nil => rfl
  | cons a rest ih => exact congrArg ((s, a) :: ·) (ih (s.act a))

/-! ## The acts of each part -/

/-- A turn, and the removal of an instance that ended in it. -/
def visitActs (s : Simulation ω) (h : Handle) : List Act :=
  match s.level.instance? h with
  | none => []
  | some i =>
    if s.isDue i then
      if (s.advance i).1.status.isTerminal then [.turn h, .remove h] else [.turn h]
    else []

theorem actAll_visitActs (h : Handle) :
    s.actAll (s.visitActs h) = s.visit h := by
  unfold visitActs visit
  cases hi : s.level.instance? h with
  | none => rfl
  | some i =>
    dsimp only
    split
    · have hturn : s.turn h = (s.advance i).2.seat h (s.advance i).1 := by rw [turn, hi]
      unfold putBack
      dsimp only
      split
      · rw [actAll_cons, actAll_cons, actAll_nil, act, act, hturn]
      · rw [actAll_cons, actAll_nil, act, hturn]
    · rfl

omit [Host ω] in
def reapActs (s : Simulation ω) : List Act :=
  if s.level.reapPending then
    .reap :: (s.level.roster.handlesWhere fun i => i.status.isTerminal).map .remove
  else []

theorem mem_visitActs {s : Simulation ω} {h : Handle} {a : Act} (ha : a ∈ s.visitActs h) :
    a = .turn h ∨ a = .remove h := by
  unfold visitActs at ha
  repeat' split at ha
  all_goals simp_all

omit [Host ω] in
theorem mem_reapActs {s : Simulation ω} {a : Act} (ha : a ∈ s.reapActs) :
    a = .reap ∨ ∃ h, a = .remove h := by
  unfold reapActs at ha
  split at ha
  · rcases List.mem_cons.mp ha with rfl | hmem
    · exact .inl rfl
    · obtain ⟨h, -, rfl⟩ := List.mem_map.mp hmem
      exact .inr ⟨h, rfl⟩
  · exact absurd ha List.not_mem_nil

theorem actAll_map {α : Type} (make : α → Act) (f : Simulation ω → α → Simulation ω)
    (h : ∀ s x, act s (make x) = f s x) (s : Simulation ω) (xs : List α) :
    s.actAll (xs.map make) = xs.foldl f s := by
  rw [actAll, List.foldl_map]
  congr 1
  funext s x
  exact h s x

theorem actAll_reapActs : s.actAll s.reapActs = s.reap := by
  unfold reapActs reap
  split
  · rw [actAll_cons, actAll_map .remove remove fun _ _ => rfl]
    rfl
  · rfl

def settleActs (left : Nat) (s : Simulation ω) : List Act :=
  match hp : s.level.pending with
  | r :: _ =>
    have := work_route_lt hp
    .takeRequest :: .route r :: settleActs left (s.dropRequest.route r).2
  | [] =>
    match hr : s.level.ready with
    | [] => s.reapActs
    | h :: _ =>
      match left with
      | 0 =>
        have := work_postpone_lt hr
        .postpone h :: settleActs 0 (s.dropReady.postpone h)
      | left + 1 =>
        .takeReady :: s.dropReady.visitActs h ++ settleActs left (s.dropReady.visit h)
termination_by (left, s.work)

section Settling

variable {left : Nat} {s : Simulation ω} {r : Request} {h : Handle}

theorem settle_request {rest : List Request} (hp : s.level.pending = r :: rest) :
    s.settle left = (s.dropRequest.route r).2.settle left := by
  rw [settle]
  split <;> simp_all

theorem settle_done (hp : s.level.pending = []) (hr : s.level.ready = []) :
    s.settle left = (left, s.reap) := by
  rw [settle]
  split
  · simp_all
  · split <;> simp_all

theorem settle_postpone {rest : List Handle} (hp : s.level.pending = [])
    (hr : s.level.ready = h :: rest) : s.settle 0 = (s.dropReady.postpone h).settle 0 := by
  rw [settle]
  split
  · simp_all
  · split <;> simp_all

theorem settle_visit {rest : List Handle} (hp : s.level.pending = [])
    (hr : s.level.ready = h :: rest) :
    s.settle (left + 1) = (s.dropReady.visit h).settle left := by
  rw [settle]
  split
  · simp_all
  · split <;> simp_all

theorem settleActs_request {rest : List Request} (hp : s.level.pending = r :: rest) :
    s.settleActs left =
      .takeRequest :: .route r :: (s.dropRequest.route r).2.settleActs left := by
  rw [settleActs]
  split <;> simp_all

theorem settleActs_done (hp : s.level.pending = []) (hr : s.level.ready = []) :
    s.settleActs left = s.reapActs := by
  rw [settleActs]
  split
  · simp_all
  · split <;> simp_all

theorem settleActs_postpone {rest : List Handle} (hp : s.level.pending = [])
    (hr : s.level.ready = h :: rest) :
    s.settleActs 0 = .postpone h :: (s.dropReady.postpone h).settleActs 0 := by
  rw [settleActs]
  split
  · simp_all
  · split <;> simp_all

theorem settleActs_visit {rest : List Handle} (hp : s.level.pending = [])
    (hr : s.level.ready = h :: rest) :
    s.settleActs (left + 1) =
      .takeReady :: s.dropReady.visitActs h ++ (s.dropReady.visit h).settleActs left := by
  rw [settleActs]
  split
  · simp_all
  · split <;> simp_all

end Settling

theorem actAll_settleActs (left : Nat) (s : Simulation ω) :
    s.actAll (s.settleActs left) = (s.settle left).2 := by
  fun_induction settle left s with
  | case1 left s r rest hp _ ih =>
    rw [settleActs_request hp, actAll_cons, actAll_cons]
    exact ih
  | case2 left s hp hr => rw [settleActs_done hp hr, actAll_reapActs]
  | case3 s hp h rest hr _ ih =>
    rw [settleActs_postpone hp hr, actAll_cons]
    exact ih
  | case4 s hp h rest hr left ih =>
    rw [settleActs_visit hp hr, List.cons_append, actAll_cons, actAll_append,
      show s.act .takeReady = s.dropReady from rfl, actAll_visitActs]
    exact ih

def settledActs (s : Simulation ω) : List Act := s.settleActs maxFirstTurns

theorem actAll_settledActs : s.actAll s.settledActs = s.settled :=
  actAll_settleActs _ s

/-- Visits in turn, each followed by what it leads to. -/
def passActs (left : Nat) (s : Simulation ω) : List Handle → List Act
  | [] => []
  | h :: rest =>
    s.visitActs h ++ (s.visit h).settleActs left ++
      passActs ((s.visit h).settle left).1 ((s.visit h).settle left).2 rest

theorem actAll_passActs (left : Nat) (s : Simulation ω) (handles : List Handle) :
    s.actAll (s.passActs left handles) =
      (handles.foldl (fun (left, s) h => (s.visit h).settle left) (left, s)).2 := by
  induction handles generalizing left s with
  | nil => rfl
  | cons h rest ih =>
    rw [passActs, actAll_append, actAll_append, actAll_visitActs, actAll_settleActs, ih]
    rfl

/-- What each visit, with what it leads to, keeps of the visits still to come, a pass keeps. -/
theorem pass_induct {P : List Handle → Simulation ω → Prop} {s : Simulation ω}
    {handles : List Handle} (hstart : P handles s)
    (hstep : ∀ h rest left t, P (h :: rest) t → P rest ((t.visit h).settle left).2) :
    P [] (s.pass handles) := by
  unfold pass
  generalize maxFirstTurns = left
  induction handles generalizing left s with
  | nil => exact hstart
  | cons h rest ih => exact ih (hstep h rest left s hstart) _

theorem actAll_startAll (launches : List Launch) :
    s.actAll (launches.map .start) = (s.startAll launches).2 := by
  unfold startAll
  generalize 0 = n
  induction launches generalizing s n with
  | nil => rfl
  | cons p rest ih => exact ih (s.start p).2 _

/-- The starts of all scripts of a kind. -/
def kindLaunches (s : Simulation ω) (kind : ScriptKind) (activator : Option Actor)
    (always : Bool) : List Launch :=
  (s.level.program.scriptsOfKind kind).map fun script =>
    { script := script, activator := activator, always := always }

def startKindActs (s : Simulation ω) (kind : ScriptKind) (activator : Option Actor)
    (always : Bool) : List Act :=
  if s.level.isReplica then []
  else (s.kindLaunches kind activator always).map .start ++
    (s.startAll (s.kindLaunches kind activator always)).2.settledActs

theorem actAll_startKindActs (kind : ScriptKind) (activator : Option Actor)
    (always : Bool) :
    s.actAll (s.startKindActs kind activator always) = (s.startKind kind activator always).2 := by
  unfold startKindActs startKind
  split
  · rfl
  · rw [actAll_append, actAll_startAll, actAll_settledActs]
    rfl

/-- The level after what waited for its map was acted on. -/
def delivered (s : Simulation ω) : Simulation ω :=
  ((s.session.deferred.waiting s.level.map).foldl deliver s.takeDeferred).settled

def beginActs (s : Simulation ω) : List Act :=
  if s.level.isReplica then []
  else
    .takeDeferred :: (s.session.deferred.waiting s.level.map).map .deliver ++
      ((s.session.deferred.waiting s.level.map).foldl deliver s.takeDeferred).settledActs ++
      s.delivered.startKindActs .opening none false ++
      [.note (.levelBegun s.level.map (s.delivered.startKind .opening none false).1)]

theorem actAll_beginActs : s.actAll s.beginActs = s.begin := by
  unfold beginActs begin
  split
  · rfl
  · simp only [actAll_append, List.cons_append, actAll_cons,
      actAll_map .deliver deliver fun _ _ => rfl]
    have hdelivered : ((s.session.deferred.waiting s.level.map).foldl deliver
        (s.act .takeDeferred)).actAll ((s.session.deferred.waiting s.level.map).foldl deliver
          s.takeDeferred).settledActs = s.delivered := actAll_settledActs _
    rw [hdelivered, actAll_startKindActs]
    rfl

/-- The instances that a tick visits. -/
def dueHandles (s : Simulation ω) : List Handle :=
  s.level.roster.handlesWhere fun i => i.lastTick != s.level.tick

def tickActs (s : Simulation ω) : List Act :=
  if s.level.isReplica then []
  else .tick :: (s.act .tick).passActs maxFirstTurns (s.act .tick).dueHandles

theorem actAll_tickActs : s.actAll s.tickActs = s.tick := by
  unfold tickActs tick
  split
  · rfl
  · rw [actAll_cons, actAll_passActs]
    rfl

end Simulation

/-- The acts of an operation. -/
def Operation.acts {ω : Type} [Host ω] (s : Simulation ω) : Operation → List Act
  | begin => s.beginActs
  | launch p => if s.level.isReplica then [] else .start p :: (s.start p).2.settledActs
  | request r => if s.level.isReplica then [] else .route r :: (s.route r).2.settledActs
  | startKind kind activator always => s.startKindActs kind activator always
  | tick => s.tickActs
  | putFirst which => ((which.find? s.level).map .putFirst).toList
  | putLast which => ((which.find? s.level).map .putLast).toList
  | setStatus script status => [.setStatus script status]
  | setVar index value => [.setVar index value]
  | setElement array index value => [.setElement array index value]
  | terminateAll => [.terminateAll]

/-- An operation is its acts, one after the other. -/
theorem Operation.run_eq_acts {ω : Type} [Host ω] (s : Simulation ω) (op : Operation) :
    (op.run s).2 = s.actAll (op.acts s) := by
  cases op with
  | begin => exact (s.actAll_beginActs).symm
  | launch p =>
    unfold run acts Simulation.launch
    dsimp only
    split
    · rfl
    · exact ((s.start p).2.actAll_settledActs).symm
  | request r =>
    unfold run acts Simulation.request
    dsimp only
    split
    · rfl
    · exact ((s.route r).2.actAll_settledActs).symm
  | startKind kind activator always => exact (s.actAll_startKindActs kind activator always).symm
  | tick => exact (s.actAll_tickActs).symm
  | putFirst which =>
    simp only [run, acts, Simulation.reorder]
    cases which.find? s.level <;> rfl
  | putLast which =>
    simp only [run, acts, Simulation.reorder]
    cases which.find? s.level <;> rfl
  | setStatus script status => rfl
  | setVar index value => rfl
  | setElement array index value => rfl
  | terminateAll => rfl

namespace Operation

variable {ω : Type} [Host ω] {s : Simulation ω} {p : Launch} {h : Handle}

/-- A launch gives the new instance its first turn, and then settles what that leads to. -/
theorem acts_launch (hr : s.level.isReplica = false) (hp : (s.start p).2.level.pending = [])
    (hready : (s.start p).2.level.ready = [h]) :
    Operation.acts s (.launch p) = .start p :: .takeReady ::
      ((s.start p).2.dropReady.visitActs h ++
        ((s.start p).2.dropReady.visit h).settleActs 1023) := by
  rw [acts, if_neg (by simp [hr])]
  exact congrArg (Act.start p :: ·) (Simulation.settleActs_visit hp hready)

theorem run_launch_visit (hr : s.level.isReplica = false)
    (hp : (s.start p).2.level.pending = []) (hready : (s.start p).2.level.ready = [h]) :
    (Operation.run s (.launch p)).2 = (((s.start p).2.dropReady.visit h).settle 1023).2 := by
  show (s.launch p).2 = _
  rw [Simulation.launch, if_neg (by simp [hr])]
  exact congrArg Prod.snd (Simulation.settle_visit hp hready)

/-- A launch whose only consequence is the first turn of the new instance. -/
theorem run_launch (hr : s.level.isReplica = false) (hp : (s.start p).2.level.pending = [])
    (hready : (s.start p).2.level.ready = [h])
    (hp' : ((s.start p).2.dropReady.visit h).level.pending = [])
    (hready' : ((s.start p).2.dropReady.visit h).level.ready = []) :
    (Operation.run s (.launch p)).2 = ((s.start p).2.dropReady.visit h).reap := by
  rw [run_launch_visit hr hp hready, Simulation.settle_done hp' hready']

/-- A launch that puts the first turn off. -/
theorem run_launch_deferred (hr : s.level.isReplica = false)
    (hp : (s.start p).2.level.pending = []) (hready : (s.start p).2.level.ready = []) :
    (Operation.run s (.launch p)).2 = (s.start p).2.reap := by
  show (s.launch p).2 = _
  rw [Simulation.launch, if_neg (by simp [hr])]
  exact congrArg Prod.snd (Simulation.settle_done hp hready)

/-- A request that starts nothing. -/
theorem run_request {r : Request} (hr : s.level.isReplica = false)
    (hp : (s.route r).2.level.pending = []) (hready : (s.route r).2.level.ready = []) :
    (Operation.run s (.request r)).2 = (s.route r).2.reap := by
  show (s.request r).2 = _
  rw [Simulation.request, if_neg (by simp [hr])]
  exact congrArg Prod.snd (Simulation.settle_done hp hready)

end Operation

/-! ## Visits and other acts -/

/-- Whether the act is a turn of some instance. -/
def Act.isTurn : Act → Bool
  | turn _ => true
  | _ => false

/-! ## The pieces of an operation -/

namespace Simulation

variable {ω : Type} [Host ω] {P : Simulation ω → List Act → Prop}

/-- What holds of a request that is acted on, of a first turn, of one that is put off and of the
removals at the end, and of acts one after the other if it holds of both parts, holds of
settling. -/
theorem settleActs_induct (append : ∀ {s xs ys}, P s xs → P (s.actAll xs) ys → P s (xs ++ ys))
    (request : ∀ s r rest, s.level.pending = r :: rest → P s [.takeRequest, .route r])
    (visit : ∀ s h rest, s.level.ready = h :: rest → P s (.takeReady :: s.dropReady.visitActs h))
    (postpone : ∀ s h rest, s.level.ready = h :: rest → P s [.postpone h])
    (reap : ∀ s, s.level.pending = [] → s.level.ready = [] → P s s.reapActs) (left : Nat)
    (s : Simulation ω) : P s (s.settleActs left) := by
  fun_induction settle left s with
  | case1 left s r rest hp _ ih =>
    rw [settleActs_request hp]
    exact append (request s r rest hp) ih
  | case2 left s hp hr =>
    rw [settleActs_done hp hr]
    exact reap s hp hr
  | case3 s hp h rest hr _ ih =>
    rw [settleActs_postpone hp hr]
    exact append (postpone s h rest hr) ih
  | case4 s hp h rest hr left ih =>
    rw [settleActs_visit hp hr]
    refine append (visit s h rest hr) ?_
    rw [actAll_cons, show s.act .takeReady = s.dropReady from rfl, actAll_visitActs]
    exact ih

/-- What holds of visits and of settling holds of visits one after the other, each with what it
leads to. -/
theorem passActs_induct (nil : ∀ s, P s [])
    (append : ∀ {s xs ys}, P s xs → P (s.actAll xs) ys → P s (xs ++ ys))
    (visit : ∀ s h, P s (s.visitActs h)) (settle : ∀ left s, P s (s.settleActs left)) (left : Nat)
    (s : Simulation ω) (handles : List Handle) : P s (s.passActs left handles) := by
  induction handles generalizing left s with
  | nil => exact nil s
  | cons h rest ih =>
    refine append (append (visit s h) ?_) ?_
    · rw [actAll_visitActs]
      exact settle left _
    · rw [actAll_append, actAll_visitActs, actAll_settleActs]
      exact ih _ _

end Simulation

namespace Operation

/-- The acts of an operation besides those of settling and of a tick. -/
def Makes : Operation → Act → Prop
  | begin, a => a = .takeDeferred ∨ (∃ e, a = .deliver e) ∨ (∃ p, a = .start p) ∨ ∃ d, a = .note d
  | launch p, a => a = .start p
  | request r, a => a = .route r
  | startKind _ _ _, a => ∃ p, a = .start p
  | tick, _ => False
  | putFirst _, a => ∃ h, a = .putFirst h
  | putLast _, a => ∃ h, a = .putLast h
  | setStatus script status, a => a = .setStatus script status
  | setVar index value, a => a = .setVar index value
  | setElement array index value, a => a = .setElement array index value
  | terminateAll, a => a = .terminateAll

theorem Makes.isTurn {op : Operation} {a : Act} (h : op.Makes a) : a.isTurn = false := by
  cases op with
  | begin => rcases h with rfl | ⟨_, rfl⟩ | ⟨_, rfl⟩ | ⟨_, rfl⟩ <;> rfl
  | tick => cases h
  | startKind => obtain ⟨_, rfl⟩ := h; rfl
  | putFirst => obtain ⟨_, rfl⟩ := h; rfl
  | putLast => obtain ⟨_, rfl⟩ := h; rfl
  | _ => cases h; rfl

variable {ω : Type} [Host ω] {P : Simulation ω → List Act → Prop} {op : Operation}

/-- What holds of single acts and of settling, and of acts one after the other if it holds of both
parts, holds of all acts of an operation. -/
theorem acts_induct (nil : ∀ s, P s [])
    (append : ∀ {s xs ys}, P s xs → P (s.actAll xs) ys → P s (xs ++ ys))
    (make : ∀ s a, op.Makes a → P s [a]) (settle : ∀ s, P s s.settledActs) (s : Simulation ω)
    (tick : op = .tick → P s s.tickActs) : P s (op.acts s) := by
  have hmap {α : Type} (f : α → Act) (hf : ∀ x, op.Makes (f x)) (xs : List α) (s : Simulation ω) :
      P s (xs.map f) := by
    induction xs generalizing s with
    | nil => exact nil s
    | cons x xs ih => exact append (make s (f x) (hf x)) (ih _)
  have hkind (hp : ∀ p, op.Makes (.start p)) (kind : ScriptKind) (activator : Option Actor)
      (always : Bool) (s : Simulation ω) : P s (s.startKindActs kind activator always) := by
    unfold Simulation.startKindActs
    split
    · exact nil s
    · refine append (hmap _ hp _ s) ?_
      rw [Simulation.actAll_startAll]
      exact settle _
  have hlist (x : Option Handle) (f : Handle → Act) (hf : ∀ h, op.Makes (f h)) :
      P s (x.map f).toList := by
    cases x with
    | none => exact nil s
    | some h => exact make s (f h) (hf h)
  cases op with
  | begin =>
    unfold acts Simulation.beginActs
    dsimp only
    split
    · exact nil s
    · have hdelivered : s.actAll (.takeDeferred ::
          (s.session.deferred.waiting s.level.map).map .deliver) =
          (s.session.deferred.waiting s.level.map).foldl Simulation.deliver s.takeDeferred :=
        Simulation.actAll_map .deliver Simulation.deliver (fun _ _ => rfl) _ _
      refine append (append (append ?_ ?_) ?_) (make _ _ (.inr (.inr (.inr ⟨_, rfl⟩))))
      · exact append (make s .takeDeferred (.inl rfl)) (hmap _ (fun e => .inr (.inl ⟨e, rfl⟩)) _ _)
      · rw [hdelivered]
        exact settle _
      · rw [Simulation.actAll_append, hdelivered, Simulation.actAll_settledActs]
        exact hkind (fun p => .inr (.inr (.inl ⟨p, rfl⟩))) _ _ _ _
  | launch p =>
    rw [acts]
    split
    · exact nil s
    · exact append (make s (.start p) rfl) (settle _)
  | request r =>
    rw [acts]
    split
    · exact nil s
    · exact append (make s (.route r) rfl) (settle _)
  | startKind kind activator always => exact hkind (fun p => ⟨p, rfl⟩) kind activator always s
  | tick => exact tick rfl
  | putFirst which => exact hlist _ _ fun h => ⟨h, rfl⟩
  | putLast which => exact hlist _ _ fun h => ⟨h, rfl⟩
  | setStatus script status => exact make s _ rfl
  | setVar index value => exact make s _ rfl
  | setElement array index value => exact make s _ rfl
  | terminateAll => exact make s _ rfl

end Operation

section Keeping

variable {ω : Type} [Host ω] {P : Simulation ω → Prop}

/-- What visits keep, and all acts that are no turns, operations keep. -/
theorem Operation.run_induct
    (hact : ∀ (s : Simulation ω) (a : Act), a.isTurn = false → P s → P (s.act a))
    (hvisit : ∀ (s : Simulation ω) (h : Handle), P s → P (s.visit h)) {s : Simulation ω} (hs : P s)
    (op : Operation) : P (op.run s).2 := by
  have happend {s : Simulation ω} {xs ys : List Act} (hx : P s → P (s.actAll xs))
      (hy : P (s.actAll xs) → P ((s.actAll xs).actAll ys)) : P s → P (s.actAll (xs ++ ys)) := by
    rw [Simulation.actAll_append]
    exact hy ∘ hx
  have hreap (s : Simulation ω) (hs : P s) : P (s.actAll s.reapActs) := by
    have hacts : ∀ a ∈ s.reapActs, a.isTurn = false := by
      intro a ha
      rcases Simulation.mem_reapActs ha with rfl | ⟨h, rfl⟩ <;> rfl
    exact List.foldlRecOn _ _ hs fun t ht a ha => hact t a (hacts a ha) ht
  have hsettle (left : Nat) (s : Simulation ω) : P s → P (s.actAll (s.settleActs left)) := by
    refine Simulation.settleActs_induct (P := fun s acts => P s → P (s.actAll acts)) happend
      (fun s r _ _ hs => hact _ (.route r) rfl (hact s .takeRequest rfl hs)) (fun s h _ _ hs => ?_)
      (fun s h _ _ hs => hact s (.postpone h) rfl hs) (fun s _ _ => hreap s) left s
    rw [Simulation.actAll_cons, show s.act .takeReady = s.dropReady from rfl,
      Simulation.actAll_visitActs]
    exact hvisit _ h (hact s .takeReady rfl hs)
  rw [run_eq_acts]
  refine acts_induct (P := fun s acts => P s → P (s.actAll acts)) (fun _ hs => hs) happend
    (fun s a ha => hact s a ha.isTurn) (fun s => hsettle _ s) s (fun _ hs => ?_) hs
  unfold Simulation.tickActs
  split
  · exact hs
  · refine Simulation.passActs_induct (P := fun s acts => P s → P (s.actAll acts)) (fun _ hs => hs)
      happend (fun s h hs => ?_) hsettle _ _ _ (hact s .tick rfl hs)
    rw [Simulation.actAll_visitActs]
    exact hvisit s h hs

/-- The operation is a call that settles. -/
def Operation.settles : Operation → Bool
  | begin | launch _ | request _ | startKind _ _ _ | tick => true
  | _ => false

/-- What settling brings about, operations keep, if those that do not settle do. -/
theorem Operation.run_of_settled (hsettle : ∀ left (t : Simulation ω), P (t.settle left).2)
    (hnote : ∀ (t : Simulation ω) d, P t → P (t.act (.note d)))
    (htick : ∀ t : Simulation ω, P t → P (t.act .tick)) {s : Simulation ω} (hs : P s)
    (op : Operation) (hother : op.settles = false → ∀ a, op.Makes a → P (s.act a)) :
    P (op.run s).2 := by
  have hkind (s : Simulation ω) (hs : P s) (kind : ScriptKind) (activator : Option Actor)
      (always : Bool) : P (s.startKind kind activator always).2 := by
    unfold Simulation.startKind
    split
    · exact hs
    · exact hsettle _ _
  cases op with
  | begin =>
    show P s.begin
    unfold Simulation.begin
    split
    · exact hs
    · exact hnote _ _ (hkind _ (hsettle _ _) _ _ _)
  | launch p =>
    show P (s.launch p).2
    unfold Simulation.launch
    split
    · exact hs
    · exact hsettle _ _
  | request r =>
    show P (s.request r).2
    unfold Simulation.request
    split
    · exact hs
    · exact hsettle _ _
  | startKind kind activator always => exact hkind s hs kind activator always
  | tick =>
    show P s.tick
    unfold Simulation.tick
    split
    · exact hs
    · exact Simulation.pass_induct (P := fun _ t => P t) (htick s hs)
        fun h _ left t _ => hsettle _ _
  | putFirst which | putLast which =>
    rw [run_eq_acts, acts]
    cases which.find? s.level with
    | none => exact hs
    | some h => exact hother rfl _ ⟨h, rfl⟩
  | setStatus | setVar | setElement | terminateAll => exact hother rfl _ rfl

end Keeping

end LevelScript
