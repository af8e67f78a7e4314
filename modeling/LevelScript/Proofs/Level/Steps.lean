import LevelScript.Proofs.Level.Operation
import LevelScript.Proofs.Level.View
import LevelScript.Proofs.Machine.Kept
import LevelScript.Proofs.Machine.Turns

/-!
# What one act makes of a level

There are many acts, and some of them lead to the same: a request, a call from outside and an entry
that waited for the map all start a script, or set the status of one. Few things happen to a level
in the end. What every act keeps is proved from these, without looking at acts again.

* `Simulation.advance_spec`: what a turn leaves of an instance and of the level.
* `Level.Step`: the things that happen, each with its reason.
* `Simulation.step_act`: every act is one of them.
-/

namespace LevelScript

/-! ## Turns -/

namespace Simulation

variable {ω : Type}

theorem promoteIfTracked_eq_scriptWait {l : Level} {st : Status} {n : Int32}
    (h : promoteIfTracked l st = .scriptWait n) : st = .scriptWait n ∨ l.isTracked n = true := by
  unfold promoteIfTracked at h
  split at h
  · split at h
    · rename_i ht
      obtain rfl := Status.scriptWait.inj h
      exact .inr ht
    · simp at h
  · exact .inl h

theorem promoteIfTracked_eq_scriptWaitPre {l : Level} {st : Status} {n : Int32}
    (h : promoteIfTracked l st = .scriptWaitPre n) : l.isTracked n = false := by
  unfold promoteIfTracked at h
  split at h
  · split at h
    · simp at h
    · rename_i ht
      obtain rfl := Status.scriptWaitPre.inj h
      simpa using ht
  · rename_i hne
    exact absurd h (hne n)

variable [Host ω] (s : Simulation ω)

theorem level_nextStatus (st : Status) :
    (s.nextStatus st).2.level = s.level := by
  cases st <;> rfl

theorem nextStatus_waits (st : Status) :
    (∀ n, (s.nextStatus st).1 = .scriptWait n → st = .scriptWait n ∨ s.level.isTracked n = true) ∧
      ∀ n, (s.nextStatus st).1 = .scriptWaitPre n → s.level.isTracked n = false := by
  have hplain : (s.nextStatus st).1 = promoteIfTracked s.level st ∨
      ∀ n, (s.nextStatus st).1 ≠ .scriptWait n ∧ (s.nextStatus st).1 ≠ .scriptWaitPre n := by
    unfold nextStatus
    split
    · refine .inr fun n => ?_
      dsimp only
      split <;> simp
    · refine .inr fun n => ?_
      dsimp only
      split <;> simp
    · refine .inr fun n => ?_
      dsimp only
      split <;> simp
    · exact .inl rfl
  rcases hplain with h | h
  · exact ⟨fun n hn => promoteIfTracked_eq_scriptWait (h ▸ hn),
      fun n hn => promoteIfTracked_eq_scriptWaitPre (h ▸ hn)⟩
  · exact ⟨fun n hn => absurd hn (h n).1, fun n hn => absurd hn (h n).2⟩

/-- What a turn leaves of the level: all but memory and the queue of requests. -/
structure Turned (l l' : Level) : Prop where
  program : l'.program = l.program
  config : l'.config = l.config
  map : l'.map = l.map
  roster : l'.roster = l.roster
  tracked : l'.tracked = l.tracked
  ready : l'.ready = l.ready
  tick : l'.tick = l.tick
  reapPending : l'.reapPending = l.reapPending
  stack : l'.stack = l.stack

/-- The machine that an instance runs on. -/
def machine (s : Simulation ω) (i : Instance) : Machine ω :=
  ⟨i, s.level.stack, s.level.memory, s.session, s.world, #[], s.journal⟩

theorem dispatch_eq (i : Instance) :
    s.dispatch i =
      let m := (Machine.run s.level.program s.level.config (s.machine i)).2
      let level := { s.level with
        stack := m.stack, memory := m.memory, pending := s.level.pending ++ m.requests.toList }
      ({ m.inst with status := promoteIfTracked level m.inst.status },
        ⟨level, m.session, m.world, m.journal.note (.executed m.inst.number
          (Machine.run s.level.program s.level.config (s.machine i)).1)⟩) := rfl

/-- What an instance keeps in a turn, and what it can wait for after it. -/
structure TurnOf (l : Level) (i j : Instance) : Prop where
  number : j.number = i.number
  typeTag : j.typeTag = i.typeTag
  entry : j.entry = i.entry
  lastTick : j.lastTick = l.tick
  scriptWait : ∀ n, j.status = .scriptWait n → i.status = .scriptWait n ∨ l.isTracked n = true
  scriptWaitPre : ∀ n, j.status = .scriptWaitPre n → l.isTracked n = false

theorem dispatch_spec (i : Instance) (hs : ∀ n, i.status ≠ .scriptWait n)
    (ht : i.lastTick = s.level.tick) :
    TurnOf s.level i (s.dispatch i).1 ∧ Turned s.level (s.dispatch i).2.level := by
  rw [dispatch_eq]
  dsimp only
  obtain ⟨hkeeps, hstatus, hstack⟩ :=
    Machine.continues_run s.level.program s.level.config (s.machine i) hs
  generalize (Machine.run s.level.program s.level.config (s.machine i)).2 = m
    at hkeeps hstatus hstack
  obtain ⟨hnumber, htag, hentry, htick⟩ := hkeeps.keeps
  refine ⟨⟨hnumber, htag, hentry, htick.trans ht, fun n hn => ?_, fun n hn => ?_⟩,
    ⟨rfl, rfl, rfl, rfl, rfl, rfl, rfl, rfl, hstack⟩⟩
  · rcases promoteIfTracked_eq_scriptWait hn with h | h
    · exact absurd h (hstatus n)
    · exact .inr h
  · exact promoteIfTracked_eq_scriptWaitPre hn

theorem advance_spec (i : Instance) :
    TurnOf s.level i (s.advance i).1 ∧ Turned s.level (s.advance i).2.level := by
  have hlevel := level_nextStatus s i.status
  obtain ⟨hwait, hpre⟩ := nextStatus_waits s i.status
  unfold advance
  dsimp only
  rw [hlevel]
  split
  · rename_i hrunning
    obtain ⟨hturn, hturned⟩ := dispatch_spec (s.nextStatus i.status).2
      { i with lastTick := s.level.tick, status := (s.nextStatus i.status).1 }
      (fun n => by rw [hrunning]; simp) (by rw [hlevel])
    rw [hlevel] at hturn hturned
    refine ⟨{ hturn with scriptWait := fun n hn => ?_ }, hturned⟩
    rcases hturn.scriptWait n hn with h | h
    · exact absurd (hrunning.symm.trans h) (by simp)
    · exact .inr h
  · refine ⟨⟨rfl, rfl, rfl, rfl, hwait, hpre⟩, ?_⟩
    rw [hlevel]
    exact ⟨rfl, rfl, rfl, rfl, rfl, rfl, rfl, rfl, rfl⟩

end Simulation

/-! ## Launches and statuses that are set -/

/-- A request for this map is acted on here. -/
def Level.IsHere (l : Level) (map : Int32) : Prop := map = 0 ∨ map = l.map

namespace Act

/-- The act launches a script on this map, not besides other instances. -/
inductive Launches (l : Level) (n : Int32) : Act → Prop
  | start {p : Launch} (script : p.script = n) (always : p.always = false) :
      Launches l n (.start p)
  | request {map : Int32} {args : ScriptArgs} {activator : Option Actor} {line : Option Line}
      {side : Side} (here : l.IsHere map) :
      Launches l n (.route (.execute map n args false activator line side))
  | deferred {e : DeferredEntry} (script : e.script = n) (action : e.action = .execute) :
      Launches l n (.deliver e)

/-- The act sets the status of a script, from outside or by a request to suspend or end it. -/
inductive SetsStatus (l : Level) (n : Int32) : Status → Act → Prop
  | set (st : Status) : SetsStatus l n st (.setStatus n st)
  | suspend {map : Int32} (here : l.IsHere map) :
      SetsStatus l n .suspended (.route (.suspend map n))
  | terminate {map : Int32} (here : l.IsHere map) :
      SetsStatus l n .pleaseRemove (.route (.terminate map n))
  | deferredSuspend {e : DeferredEntry} (script : e.script = n) (action : e.action = .suspend) :
      SetsStatus l n .suspended (.deliver e)
  | deferredTerminate {e : DeferredEntry} (script : e.script = n)
      (action : e.action = .terminate) : SetsStatus l n .pleaseRemove (.deliver e)

/-- Takes somebody out of the queue of new instances. -/
def unqueues : Act → Bool
  | takeReady | postpone _ | terminateAll => true
  | _ => false

/-- Starts an instance without a place in the queue. -/
def defers : Act → Bool
  | start p => p.deferStart
  | _ => false

/-- Whether an instance that the act starts is started besides others. -/
def startsBesides : Act → Bool
  | start p => p.always
  | route (.execute _ _ _ always _ _ _) => always
  | deliver e => e.action == .executeAlways
  | _ => false

/-- Acts that leave instances and queues alone, or may do so. -/
def mayIdle : Act → Bool
  | takeDeferred | note _ | route _ | start _ | deliver _ | setStatus _ _ | setVar _ _
  | setElement _ _ _ => true
  | _ => false

theorem Launches.mayIdle {l : Level} {n : Int32} {a : Act} (h : a.Launches l n) :
    a.mayIdle = true := by
  cases h <;> rfl

theorem SetsStatus.mayIdle {l : Level} {n : Int32} {st : Status} {a : Act}
    (h : a.SetsStatus l n st) : a.mayIdle = true := by
  cases h <;> rfl

end Act

/-! ## Steps -/

namespace Level

/-- A new run of one of the program's scripts. -/
def IsNew (program : Program) (i : Instance) : Prop :=
  ∃ (script : Script) (leastLocals : Nat) (args : List Int32) (activator : Option Actor)
    (line : Option Line) (side : Side), program.findScript script.number = some script ∧
      i = Instance.start script leastLocals args activator line side

/-- What an act makes of a level. -/
inductive Step (l : Level) : Act → Level → Prop
  | tick : Step l .tick { l with tick := l.tick + 1 }
  | takeRequest : Step l .takeRequest { l with pending := l.pending.tail }
  | takeReady : Step l .takeReady { l with ready := l.ready.tail }
  | reap : Step l .reap { l with reapPending := false }
  | idle {a : Act} {memory : MapMemory} (idle : a.mayIdle = true)
      (shape : memory.shape = l.memory.shape) : Step l a { l with memory := memory }
  /-- The status of a tracked instance is set. -/
  | set {a : Act} {n : Int32} {h : Handle} {i : Instance} {st : Status} (find : l.find? n = some h)
      (inst : l.instance? h = some i) (alive : i.status.isTerminal = false)
      (sets : a.SetsStatus l n st) :
      Step l a { l with
        roster := l.roster.modify h ({ · with status := st })
        reapPending := l.reapPending || st.isTerminal }
  /-- A tracked instance that is suspended runs again. -/
  | resume {a : Act} {n : Int32} {h : Handle} {i : Instance} (find : l.find? n = some h)
      (inst : l.instance? h = some i) (suspended : i.status = .suspended)
      (launches : a.Launches l n) (besides : a.startsBesides = false) :
      Step l a { l with roster := l.roster.modify h ({ · with status := .running }) }
  /-- A new instance of a script comes last, and into the queue unless its first turn is left to the
  next tick. -/
  | add {a : Act} {i : Instance} (idle : a.mayIdle = true) (new : IsNew l.program i)
      (free : a.startsBesides = false → (l.find? i.number).bind l.instance? = none) :
      Step l a { (l.add i a.startsBesides).2 with
        ready := if a.defers then l.ready else l.ready ++ [(l.add i a.startsBesides).1] }
  | turn {h : Handle} {i j : Instance} {l' : Level} {raised : List Request}
      (inst : l.instance? h = some i) (turn : Simulation.TurnOf l i j)
      (turned : Simulation.Turned l l') (pending : l'.pending = l.pending ++ raised) :
      Step l (.turn h) { l' with roster := l'.roster.replace h j }
  | postpone {h : Handle} : Step l (.postpone h) { l with
      roster := l.roster.modify h ({ · with lastTick := l.tick }), ready := l.ready.tail }
  | remove {h : Handle} {i : Instance} (inst : l.instance? h = some i) :
      Step l (.remove h) (l.remove h)
  | turnNobody {h : Handle} (none : l.instance? h = none) : Step l (.turn h) l
  | removeNobody {h : Handle} (none : l.instance? h = none) : Step l (.remove h) l
  | putFirst {h : Handle} : Step l (.putFirst h) (l.putFirst h).2
  | putLast {h : Handle} : Step l (.putLast h) (l.putLast h).2
  | terminateAll : Step l .terminateAll l.terminateAll

end Level

theorem Program.number_of_findScript {program : Program} {n : Int32} {script : Script}
    (h : program.findScript n = some script) : script.number = n := by
  simpa using List.find?_some h

namespace Simulation

variable {ω : Type} {s : Simulation ω} {a : Act}

theorem level_enlist (s : Simulation ω) (script : Script) (p : Launch) :
    let i := Instance.start script s.level.config.scriptLocals p.args.toList p.activator p.line
      p.side
    (s.enlist script p).level = { (s.level.add i p.always).2 with
      ready := if p.deferStart then s.level.ready
        else s.level.ready ++ [(s.level.add i p.always).1] } := by
  dsimp only
  rw [← Level.ready_add s.level _ p.always]
  rfl

theorem step_setStatus {n : Int32} {st : Status} (hsets : a.SetsStatus s.level n st) :
    s.level.Step a (s.setStatus n st).2.level := by
  show s.level.Step a (s.level.setStatus n st).2
  rcases s.level.setStatus_eq n st with heq | ⟨h, i, hfind, hi, halive, heq⟩
  · rw [heq]
    exact .idle hsets.mayIdle rfl
  · rw [heq]
    exact .set hfind hi halive hsets

/-- Starting a script adds an instance, runs a suspended one again, or does nothing. -/
theorem step_start {p : Launch} (hidle : a.mayIdle = true) (hbesides : a.startsBesides = p.always)
    (hdefers : a.defers = p.deferStart) (hlaunch : p.always = false → a.Launches s.level p.script) :
    s.level.Step a (s.start p).2.level := by
  unfold start
  split
  · exact .idle hidle rfl
  · rename_i script hscript
    dsimp only
    split
    · rename_i k i htracked
      split
      · rename_i hsuspended
        obtain ⟨k', hk, hpair⟩ := Option.bind_eq_some_iff.mp htracked
        obtain ⟨i', hi, heq⟩ := Option.map_eq_some_iff.mp hpair
        obtain ⟨rfl, rfl⟩ := Prod.mk.inj heq
        split at hk
        · cases hk
        · rename_i halways
          rw [Bool.not_eq_true] at halways
          exact .resume hk hi hsuspended (hlaunch halways) (hbesides.trans halways)
      · exact .idle hidle rfl
    · rename_i htracked
      have hnumber := Program.number_of_findScript hscript
      dsimp only
      rw [level_enlist, ← hbesides, ← hdefers]
      refine .add hidle ⟨script, _, _, _, _, _, by rw [hnumber, hscript], rfl⟩ fun halone => ?_
      -- Were a script of this number tracked, its instance would have been found.
      rw [← hbesides, halone, if_neg (by simp)] at htracked
      show (s.level.find? script.number).bind s.level.instance? = none
      rw [hnumber]
      cases hfind : s.level.find? p.script with
      | none => rfl
      | some k => simpa [hfind] using htracked

variable [Host ω] (s)

theorem level_actorOf (p : Option UInt8) : (s.actorOf p).2.level = s.level := by
  cases p <;> rfl

theorem step_route (r : Request) :
    s.level.Step (.route r) (s.route r).2.level := by
  unfold route
  split
  · have hlevel : ((s.deferredEntry r).2.defer (s.deferredEntry r).1).level = s.level :=
      level_deferredEntry s r
    rw [hlevel]
    exact .idle rfl rfl
  · rename_i hmap
    have hhere : s.level.IsHere r.map := by
      by_contra hnot
      exact hmap (not_or.mp hnot)
    cases r with
    | execute map script args always activator line side =>
      refine step_start rfl rfl rfl fun halways => ?_
      obtain rfl : always = false := halways
      exact .request hhere
    | suspend map script => exact step_setStatus (.suspend hhere)
    | terminate map script => exact step_setStatus (.terminate hhere)

theorem step_deliver (e : DeferredEntry) :
    s.level.Step (.deliver e) (s.deliver e).level := by
  have hlevel := level_actorOf s e.player
  have hstart (hlaunch : (e.action == .executeAlways) = false →
      Act.Launches s.level e.script (.deliver e)) :
      s.level.Step (.deliver e) ((s.actorOf e.player).2.start
        { script := e.script, activator := (s.actorOf e.player).1, args := e.args
          always := e.action == .executeAlways }).2.level := by
    rw [← hlevel] at hlaunch ⊢
    exact step_start rfl rfl rfl hlaunch
  unfold deliver
  split
  · exact .idle rfl rfl
  · split
    · rename_i haction
      exact step_setStatus (.deferredSuspend rfl haction)
    · rename_i haction
      exact step_setStatus (.deferredTerminate rfl haction)
    · rename_i haction
      exact hstart fun _ => .deferred rfl haction
    · rename_i haction
      exact hstart fun halways => absurd halways (by simp [haction])

theorem pending_advance (i : Instance) :
    ∃ raised, (s.advance i).2.level.pending = s.level.pending ++ raised := by
  have hlevel := level_nextStatus s i.status
  unfold advance
  dsimp only
  split
  · rw [dispatch_eq, ← hlevel]
    exact ⟨_, rfl⟩
  · rw [hlevel]
    exact ⟨[], (List.append_nil _).symm⟩

theorem step_turn (h : Handle) :
    s.level.Step (.turn h) (s.turn h).level := by
  unfold turn
  split
  · rename_i hnone
    exact .turnNobody hnone
  · rename_i i hi
    obtain ⟨raised, hpending⟩ := pending_advance s i
    exact .turn hi (advance_spec s i).1 (advance_spec s i).2 hpending

omit [Host ω] in
theorem level_remove (h : Handle) : (s.remove h).level = s.level.remove h := by
  unfold remove
  split
  · rename_i hnone
    rw [Level.remove_of_none hnone]
  · rfl

omit [Host ω] in
theorem step_remove (h : Handle) :
    s.level.Step (.remove h) (s.remove h).level := by
  unfold remove
  split
  · rename_i hnone
    exact .removeNobody hnone
  · rename_i i hi
    exact .remove hi

/-- Every act makes a step. -/
theorem step_act (a : Act) : s.level.Step a (s.act a).level := by
  cases a with
  | tick => exact .tick
  | takeRequest => exact .takeRequest
  | takeReady => exact .takeReady
  | reap => exact .reap
  | takeDeferred | note => exact .idle rfl rfl
  | route r => exact step_route s r
  | start p => exact step_start rfl rfl rfl (.start rfl)
  | deliver e => exact step_deliver s e
  | setStatus n st => exact step_setStatus (.set st)
  | turn h => exact step_turn s h
  | postpone h => exact .postpone
  | remove h => exact step_remove s h
  | putFirst h => exact .putFirst
  | putLast h => exact .putLast
  | setVar index value => exact .idle rfl rfl
  | setElement array index value => exact .idle rfl (MapMemory.shape_setElement ..)
  | terminateAll => exact .terminateAll

end Simulation

end LevelScript
