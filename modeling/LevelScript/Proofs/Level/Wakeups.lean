import LevelScript.Proofs.Level.Waits

/-!
# Waking up

When a tracked instance of a script is removed, those that waited for the script run again. An
instance that was woken stays ready until it gets its turn, in this tick or in the next, unless
something from outside comes in between.

* `Simulation.Poised`: an instance runs, and still waits for its turn.
* `poised_act`: an act gives it the turn, interrupts it, or leaves it poised.
* `script_waits_end`: waits for scripts fit the registry, and they end.
-/

namespace LevelScript

namespace Simulation

variable {ω : Type} [Host ω]

/-! ## Turns and what comes in between -/

/-- The act gives the instance a turn in which it runs. -/
def Dispatches (s : Simulation ω) (h : Handle) (a : Act) : Prop :=
  a = .turn h ∧ ∃ i, s.level.instance? h = some i ∧
    s.advance i = s.dispatch { i with lastTick := s.level.tick }

/-- The act keeps the instance from running: its status is set, it is suspended or ended by a
request, or all instances are dropped. -/
inductive Interrupts (s : Simulation ω) (h : Handle) : Act → Prop
  | set {n : Int32} {st : Status} (find : s.level.find? n = some h) (other : st ≠ .running) :
      Interrupts s h (.setStatus n st)
  | request {a : Act} {j : Instance} (asked : (∃ r, a = .route r) ∨ ∃ e, a = .deliver e)
      (inst : (s.act a).level.instance? h = some j)
      (status : j.status = .suspended ∨ j.status = .pleaseRemove) : Interrupts s h a
  | terminateAll : Interrupts s h .terminateAll

/-- Among the acts is one that gives the instance its turn, or one that interrupts it. -/
def Served (s : Simulation ω) (h : Handle) (acts : List Act) : Prop :=
  ∃ xs a ys, acts = xs ++ a :: ys ∧
    ((s.actAll xs).Dispatches h a ∨ (s.actAll xs).Interrupts h a)

theorem Served.append_right {s : Simulation ω} {h : Handle} {xs : List Act}
    (hs : s.Served h xs) (ys : List Act) : s.Served h (xs ++ ys) := by
  obtain ⟨as, a, bs, rfl, ha⟩ := hs
  exact ⟨as, a, bs ++ ys, by simp, ha⟩

theorem Served.append_left {s : Simulation ω} {h : Handle} {xs ys : List Act}
    (hs : (s.actAll xs).Served h ys) : s.Served h (xs ++ ys) := by
  obtain ⟨as, a, bs, rfl, ha⟩ := hs
  exact ⟨xs ++ as, a, bs, by simp, by rwa [actAll_append]⟩

/-! ## Instances that wait for their turn -/

omit [Host ω] in
/-- The instance runs, took its last turn at `last`, and is not new. -/
structure Poised (s : Simulation ω) (h : Handle) (last : UInt64) : Prop where
  inst : ∃ i, s.level.instance? h = some i ∧ i.status = .running ∧ i.lastTick = last
  old : h ∉ s.level.ready

section Run

variable {s : Simulation ω} {h : Handle} {last : UInt64} {sets : Status → Prop}

theorem advance_of_running (s : Simulation ω) {i : Instance} (hrun : i.status = .running) :
    s.advance i = s.dispatch { i with lastTick := s.level.tick } := by
  have hnext : s.nextStatus i.status = (.running, s) := by
    rw [hrun]
    rfl
  unfold advance
  rw [hnext]
  dsimp only
  rw [if_pos rfl, ← hrun]

/-- An act gives a poised instance its turn, interrupts it, or leaves it poised. -/
theorem poised_act (hl : s.level.Sound) (hp : s.Poised h last) {a : Act} (ha : a.Proper sets s) :
    (s.Dispatches h a ∨ s.Interrupts h a) ∨ (s.act a).Poised h last := by
  obtain ⟨i, hi, hrun, hlast⟩ := hp.inst
  have hold : h ∉ (s.act a).level.ready := mt ((step_act s a).ready_of_old hl hi) hp.old
  rcases (step_act s a).fate hl hi with ⟨j, hj, hfate⟩ | ⟨-, rfl | rfl⟩
  · cases hfate with
    | turn act => exact .inl (.inl ⟨act, i, hi, advance_of_running s hrun⟩)
    | postpone act =>
      subst act
      obtain ⟨rest, hready⟩ := ha
      exact absurd (hready ▸ List.mem_cons_self) hp.old
    | aside _ _ aside lastTick =>
      cases aside with
      | same => exact .inr ⟨⟨i, hj, hrun, hlast⟩, hold⟩
      | postponed => exact .inr ⟨⟨_, hj, hrun, lastTick.trans hlast⟩, hold⟩
      | promoted wait => cases hrun.symm.trans wait
      | woken wait => cases hrun.symm.trans wait
      | resumed _ _ wait => cases hrun.symm.trans wait
      | @set st tracked sets =>
        by_cases hst : st = .running
        · exact .inr ⟨⟨_, hj, hst, hlast⟩, hold⟩
        · refine .inl (.inr ?_)
          cases sets with
          | set => exact .set tracked hst
          | suspend => exact .request (.inl ⟨_, rfl⟩) hj (.inl rfl)
          | terminate => exact .request (.inl ⟨_, rfl⟩) hj (.inr rfl)
          | deferredSuspend => exact .request (.inr ⟨_, rfl⟩) hj (.inl rfl)
          | deferredTerminate => exact .request (.inr ⟨_, rfl⟩) hj (.inr rfl)
  · -- Only what has ended is removed.
    have hend := ha.2 i hi
    rw [hrun] at hend
    cases hend
  · exact .inl (.inr .terminateAll)

/-- Acts one after the other give a poised instance its turn, interrupt it, or leave it poised. -/
theorem poised_actAll {acts : List Act} (hl : s.level.Sound) (hp : s.Poised h last)
    (hproper : s.Proper sets acts) :
    s.Served h acts ∨
      (s.actAll acts).Poised h last ∧ (s.actAll acts).level.tick = s.level.tick := by
  induction acts generalizing s with
  | nil => exact .inr ⟨hp, rfl⟩
  | cons a rest ih =>
    rcases poised_act hl hp hproper.1 with hserved | hp'
    · exact .inl ⟨[], a, rest, rfl, hserved⟩
    · rcases ih (sound_act hl a) hp' hproper.2 with hserved | ⟨hp'', htick⟩
      · have hone : (s.actAll [a]).Served h rest := hserved
        exact .inl hone.append_left
      · exact .inr ⟨hp'', htick.trans (staysInTick_act s hproper.1.ne_tick).tick⟩

/-- In a pass over the instances, a poised one that is due gets its turn. -/
theorem served_passActs (hsets : Status.Closed sets) (left : Nat) {handles : List Handle}
    (hl : s.level.Sound) (hq : s.level.Quiet) (hp : s.Poised h last) (hlast : last ≠ s.level.tick)
    (hmem : h ∈ handles) : s.Served h (s.passActs left handles) := by
  induction handles generalizing left s with
  | nil => exact absurd hmem List.not_mem_nil
  | cons k rest ih =>
    rw [passActs]
    by_cases hk : k = h
    · subst hk
      obtain ⟨i, hi, hrun, hilast⟩ := hp.inst
      have hdue : s.isDue i = true := by simp [isDue, hilast, hlast]
      have hacts : ∃ more, s.visitActs k = .turn k :: more := by
        unfold visitActs
        rw [hi]
        dsimp only
        rw [if_pos hdue]
        split
        · exact ⟨_, rfl⟩
        · exact ⟨_, rfl⟩
      obtain ⟨more, hmore⟩ := hacts
      have hserved : s.Served k (s.visitActs k) :=
        ⟨[], .turn k, more, hmore, .inl ⟨rfl, i, hi, advance_of_running s hrun⟩⟩
      exact (hserved.append_right _).append_right _
    · have hmem' : h ∈ rest := (List.mem_cons.mp hmem).resolve_left (Ne.symm hk)
      have hone : s.Proper sets (s.passActs left [k]) := proper_passActs hsets left hl hq [k]
      rw [passActs, passActs, List.append_nil] at hone
      rcases poised_actAll hl hp hone with hserved | ⟨hp', htick⟩
      · exact hserved.append_right _
      · refine Served.append_left ?_
        rw [actAll_append, actAll_visitActs, actAll_settleActs] at hp' htick ⊢
        exact ih _ (sound_settle (sound_visit hl k) left) (quiet_settle left _) hp'
          (htick ▸ hlast) hmem'

/-- In a tick, a poised instance gets its turn or is interrupted. -/
theorem served_tickActs (hsets : Status.Closed sets) (hl : s.level.AtRest)
    (hr : s.level.isReplica = false) (hp : s.Poised h last) (hlast : last ≠ s.level.tick + 1) :
    s.Served h s.tickActs := by
  have htick : (s.act .tick).Poised h last := ⟨hp.inst, hp.old⟩
  obtain ⟨i, hi, -, hilast⟩ := htick.inst
  have hmem : h ∈ (s.act .tick).dueHandles := by
    refine List.mem_map.mpr ⟨(h, i), List.mem_filter.mpr ⟨?_, ?_⟩, rfl⟩
    · exact (Roster.mem_entries_iff hl.sound.roster).mpr hi
    · show (i.lastTick != s.level.tick + 1) = true
      rw [hilast]
      simpa using hlast
  have hserved := served_passActs hsets maxFirstTurns (sound_act hl.sound .tick) hl.quiet htick
    hlast hmem
  unfold tickActs
  rw [if_neg (by simp [hr])]
  have hone : (s.actAll [.tick]).Served h _ := hserved
  exact hone.append_left

end Run

end Simulation

/-! ## From one operation to the next -/

/-- An operation with the session, the host and the journal it meets. -/
structure Occasion (ω : Type) where
  op : Operation
  session : Session
  world : ω
  journal : Journal

namespace Occasion

variable {ω : Type} [Host ω]

omit [Host ω] in
def enter (o : Occasion ω) (l : Level) : Simulation ω := ⟨l, o.session, o.world, o.journal⟩

/-- What the operation makes of a level. -/
def apply (o : Occasion ω) (l : Level) : Level := (o.op.run (o.enter l)).2.level

/-- In one of the operations, the instance gets its turn or is interrupted. -/
def Serve (h : Handle) : Level → List (Occasion ω) → Prop
  | _, [] => False
  | l, o :: rest => (o.enter l).Served h (o.op.acts (o.enter l)) ∨ Serve h (o.apply l) rest

/-- A poised instance gets its turn no later than in the next tick. -/
theorem serve_of_poised {l : Level} {h : Handle} {last : UInt64} {between : List (Occasion ω)}
    {final : Occasion ω} (hbetween : ∀ o ∈ between, o.op ≠ .tick ∧ o.op.Sets Status.Plain)
    (hfinal : final.op = .tick) (hl : l.AtRest) (hr : l.isReplica = false)
    (hp : (final.enter l).Poised h last) (hlast : last ≠ l.tick + 1) :
    Serve h l (between ++ [final]) := by
  have hplain := Status.closed_plain
  induction between generalizing l with
  | nil =>
    refine .inl ?_
    rw [hfinal]
    exact Simulation.served_tickActs (s := final.enter l) hplain hl hr hp hlast
  | cons o rest ih =>
    obtain ⟨hop, hsets⟩ := hbetween o List.mem_cons_self
    have hpo : (o.enter l).Poised h last := ⟨hp.inst, hp.old⟩
    have hproper := o.op.proper_acts (s := o.enter l) hplain hl hop hsets
    rcases Simulation.poised_actAll hl.sound hpo hproper with hserved | ⟨hp', htick⟩
    · exact .inl hserved
    · refine .inr ?_
      rw [← o.op.run_eq_acts] at hp' htick
      have hstays := Simulation.stays_actAll (o.enter l) (o.op.acts (o.enter l))
      rw [← o.op.run_eq_acts] at hstays
      exact ih (fun o' ho' => hbetween o' (List.mem_cons_of_mem _ ho'))
        (hl.run (s := o.enter l) o.op) ((Simulation.isReplica_congr hstays).trans hr)
        ⟨hp'.inst, hp'.old⟩ (by
          have htick' : (o.apply l).tick = l.tick := htick
          rwa [htick'])

end Occasion

/-! ## Waits end -/

section

variable {ω : Type} [Host ω] {s : Simulation ω}

/-- On a side that only replays effects, nothing is removed. -/
theorem Operation.isReplica_of_remove {op : Operation} {xs ys : List Act} {r : Handle}
    (h : op.acts s = xs ++ .remove r :: ys) : s.level.isReplica = false := by
  by_contra hr
  rw [Bool.not_eq_false] at hr
  have hmem : Act.remove r ∈ op.acts s := by simp [h]
  cases op with
  | begin => simp [acts, Simulation.beginActs, hr] at hmem
  | launch p => simp [acts, hr] at hmem
  | request q => simp [acts, hr] at hmem
  | startKind kind activator always => simp [acts, Simulation.startKindActs, hr] at hmem
  | tick => simp [acts, Simulation.tickActs, hr] at hmem
  | putFirst which => simp [acts] at hmem
  | putLast which => simp [acts] at hmem
  | setStatus script status => simp [acts] at hmem
  | setVar index value => simp [acts] at hmem
  | setElement array index value => simp [acts] at hmem
  | terminateAll => simp [acts] at hmem

open Simulation in
/-- **Waits for scripts end.** In every level that a game meets, an instance waits for the end of
a script only if the registry leads to a living instance of it, and for the start only if it
does not. When an operation removes the tracked instance of a script, each other instance that
waits for its end runs again. In this operation or in those that follow, the next tick included,
it gets a turn in which it runs, unless it is interrupted before. -/
theorem script_waits_end (hs : s.level.Lived) :
    (∀ h i n, s.level.instance? h = some i →
      (i.status = .scriptWait n →
        ∃ k j, s.level.find? n = some k ∧ s.level.instance? k = some j ∧ j.number = n) ∧
      (i.status = .scriptWaitPre n → s.level.find? n = none)) ∧
    ∀ op : Operation, op.Sets Status.Plain → (op.run s).2 = s.actAll (op.acts s) ∧
      ∀ xs r ys, op.acts s = xs ++ .remove r :: ys → ∀ n h i,
        (s.actAll xs).level.find? n = some r → h ≠ r →
        (s.actAll xs).level.instance? h = some i → i.status = .scriptWait n →
        ((s.actAll xs).act (.remove r)).level.instance? h = some { i with status := .running } ∧
        (((s.actAll xs).act (.remove r)).Served h ys ∨
          ∀ (between : List (Occasion ω)) (final : Occasion ω),
            (∀ o ∈ between, o.op ≠ .tick ∧ o.op.Sets Status.Plain) → final.op = .tick →
            Occasion.Serve h (op.run s).2.level (between ++ [final])) := by
  have hrest := hs.atRest
  refine ⟨fun h i n hi => ⟨fun hst => ?_, fun hst => ?_⟩, fun op hop =>
    ⟨op.run_eq_acts s, fun xs r ys hacts n h i hfind hne hi hst => ?_⟩⟩
  · have htracked := ((hs.waits h i hi).scriptWait n hst).1
    obtain ⟨k, hk⟩ := Option.isSome_iff_exists.mp htracked
    obtain ⟨j, hj, hn⟩ := hrest.sound.find hk
    exact ⟨k, j, hk, hj, hn⟩
  · have htracked := ((hs.waits h i hi).scriptWaitPre n hst).1
    simpa [Level.isTracked] using htracked
  · have hl : (s.actAll xs).level.Sound := sound_actAll hrest.sound xs
    obtain ⟨j, hj, hn⟩ := hl.find hfind
    have hlevel : ((s.actAll xs).act (.remove r)).level = (s.actAll xs).level.remove r := by
      show ((s.actAll xs).remove r).level = _
      rw [Simulation.remove, hj]
      rfl
    have hwoken : ((s.actAll xs).act (.remove r)).level.instance? h =
        some { i with status := .running } := by
      rw [hlevel, Level.instance?_remove hl.roster hj, if_neg hne, hi, Option.map_some,
        Level.woken, if_pos (by rw [hst, hn])]
      rfl
    refine ⟨hwoken, ?_⟩
    obtain ⟨hqueued, hproper⟩ :=
      Operation.proper_within Status.closed_plain hrest hop hacts (by simp)
    -- New instances do not wait, so this one is not in the queue of their first turns.
    have hold : h ∉ (s.actAll xs).level.ready := by
      intro hmem
      obtain ⟨i', hi', hplain⟩ := hqueued.live h hmem
      rw [hi] at hi'
      rw [← Option.some.inj hi'] at hplain
      exact (hplain n).1 hst
    have hready : ((s.actAll xs).act (.remove r)).level.ready = (s.actAll xs).level.ready := by
      rw [hlevel, Level.remove_frame hj]
      rfl
    have hpoised : ((s.actAll xs).act (.remove r)).Poised h i.lastTick :=
      ⟨⟨_, hwoken, rfl, rfl⟩, hready ▸ hold⟩
    have hend : ((s.actAll xs).act (.remove r)).actAll ys = (op.run s).2 := by
      rw [op.run_eq_acts s, hacts, actAll_append, actAll_cons]
    rcases poised_actAll (sound_act hl (.remove r)) hpoised hproper.2 with hserved | ⟨hp, htick⟩
    · exact .inl hserved
    · refine .inr fun between final hbetween hfinal => ?_
      rw [hend] at hp htick
      have hstays := stays_actAll s (op.acts s)
      rw [← op.run_eq_acts s] at hstays
      have hreplica := (isReplica_congr hstays).trans (Operation.isReplica_of_remove hacts)
      have hrecent := ((Level.waits_within hrest hs.waits hop hacts) h i hi).scriptWait n hst
      have hsame : (op.run s).2.level.tick = (s.actAll xs).level.tick :=
        htick.trans (staysInTick_act _ (by simp)).tick
      exact Occasion.serve_of_poised hbetween hfinal (hrest.run op) hreplica ⟨hp.inst, hp.old⟩
        (hsame ▸ hrecent.2.ne_succ)

end

/-! ## A wake-up that is put off -/

namespace PutOff

open Simulation

/-- Both scripts wait for the end of script 1, and then end. -/
def program : Program :=
  { (default : Program) with
    image := #[82, 0, 0, 0, 1, 0, 0, 0, 1, 0, 0, 0]
    layout := .enhanced .wide
    scripts := [{ (default : Script) with number := 1 }, { (default : Script) with number := 2 }] }

def idle : Simulation StillWorld := ⟨.start program 1 .standard, .empty, default, default⟩

/-- Script 1 is started and did not run yet. -/
def started : Simulation StillWorld := (idle.start { script := 1, deferStart := true }).2.reap

/-- Script 2 waits for its end. -/
def waiting : Simulation StillWorld :=
  ((started.start { script := 2 }).2.dropReady.visit ⟨1, 0⟩).reap

/-- Script 1 was ended, and the instance of script 2 was woken. -/
def awake : Simulation StillWorld := (waiting.route (.terminate 0 1)).2.reap

/-- Script 2 was then told to wait. -/
def delayed : Simulation StillWorld := (awake.setStatus 2 (.delayed 3)).2

/-- What happens, step by step. -/
theorem facts :
    (started.level.isReplica = false ∧ (started.start { script := 2 }).2.level.pending = [] ∧
      (started.start { script := 2 }).2.level.ready = [⟨1, 0⟩] ∧
      ((started.start { script := 2 }).2.dropReady.visit ⟨1, 0⟩).level.pending = [] ∧
      ((started.start { script := 2 }).2.dropReady.visit ⟨1, 0⟩).level.ready = []) ∧
    (waiting.level.isReplica = false ∧ (waiting.route (.terminate 0 1)).2.level.pending = [] ∧
      (waiting.route (.terminate 0 1)).2.level.ready = [] ∧
      (waiting.route (.terminate 0 1)).2.reapActs = [.reap, .remove ⟨0, 0⟩]) ∧
    ((waiting.actAll [.route (.terminate 0 1), .reap]).level.find? 1 = some ⟨0, 0⟩ ∧
      ((waiting.actAll [.route (.terminate 0 1), .reap]).level.instance? ⟨1, 0⟩).map (·.status) =
        some (.scriptWait 1)) ∧
    waiting.level.instances.map (·.status) = [.running, .scriptWait 1] ∧
    awake.level.instances.map (·.status) = [.running] ∧
    ((delayed.level.isReplica = false ∧ (delayed.act .tick).dueHandles = [⟨1, 0⟩] ∧
      ((delayed.act .tick).visit ⟨1, 0⟩).level.pending = [] ∧
      ((delayed.act .tick).visit ⟨1, 0⟩).level.ready = []) ∧
      ((delayed.act .tick).visit ⟨1, 0⟩).reap.level.instances.map (·.status) = [.delayed 2]) ∧
    (awake.level.isReplica = false ∧ (awake.act .tick).dueHandles = [⟨1, 0⟩] ∧
      ((awake.act .tick).visit ⟨1, 0⟩).level.pending = [] ∧
      ((awake.act .tick).visit ⟨1, 0⟩).level.ready = []) ∧
      ((awake.act .tick).visit ⟨1, 0⟩).reap.level.instances.map (·.status) = [] := by
  decide +kernel

theorem run_started :
    (Operation.run idle (.launch { script := 1, deferStart := true })).2 = started :=
  Operation.run_launch_deferred (by decide +kernel) (by decide +kernel) (by decide +kernel)

theorem run_waiting : (Operation.run started (.launch { script := 2 })).2 = waiting := by
  obtain ⟨⟨hreplica, hpending, hready, hpending', hready'⟩, -⟩ := facts
  exact Operation.run_launch hreplica hpending hready hpending' hready'

theorem run_awake : (Operation.run waiting (.request (.terminate 0 1))).2 = awake := by
  obtain ⟨-, ⟨hreplica, hpending, hready, -⟩, -⟩ := facts
  exact Operation.run_request hreplica hpending hready

theorem lived_waiting : waiting.level.Lived := by
  have hidle : idle.level.Lived := .start program 1 .standard
  have hstarted : started.level.Lived := run_started ▸ hidle.run trivial
  exact run_waiting ▸ hstarted.run trivial

/-- Ending script 1 wakes the instance of script 2. -/
theorem script_waits_end_at_terminate :
    let front : List Act := [.route (.terminate 0 1), .reap]
    waiting.level.Lived ∧
    Operation.acts waiting (.request (.terminate 0 1)) = front ++ .remove ⟨0, 0⟩ :: [] ∧
    ∃ i, (waiting.actAll front).level.find? 1 = some ⟨0, 0⟩ ∧
      (waiting.actAll front).level.instance? ⟨1, 0⟩ = some i ∧ i.status = .scriptWait 1 ∧
      ((waiting.actAll front).act (.remove ⟨0, 0⟩)).level.instance? ⟨1, 0⟩ =
        some { i with status := .running } := by
  intro front
  obtain ⟨-, ⟨hreplica, hpending, hready, hreap⟩, ⟨hfind, hstatus⟩, -⟩ := facts
  have hacts : Operation.acts waiting (.request (.terminate 0 1)) =
      front ++ .remove ⟨0, 0⟩ :: [] := by
    rw [Operation.acts, if_neg (by simp [hreplica]), settledActs, settleActs_done hpending hready,
      hreap]
    rfl
  obtain ⟨i, hi, hst⟩ := Option.map_eq_some_iff.mp hstatus
  have hend := (script_waits_end lived_waiting).2 (.request (.terminate 0 1)) trivial
  exact ⟨lived_waiting, hacts, i, hfind, hi, hst,
    (hend.2 front ⟨0, 0⟩ [] hacts 1 ⟨1, 0⟩ i hfind (by decide) hi hst).1⟩

/-- An instance that was woken does not run in the next tick if it is told to wait before. Else
it runs, and ends. -/
theorem delayed_after_wakeup :
    (idle.play [.launch { script := 1, deferStart := true }, .launch { script := 2 },
      .request (.terminate 0 1)]).2 = awake ∧
    waiting.level.instances.map (·.status) = [.running, .scriptWait 1] ∧
    awake.level.instances.map (·.status) = [.running] ∧
    (awake.play [.setStatus 2 (.delayed 3), .tick]).2.level.instances.map (·.status) =
      [.delayed 2] ∧
    (awake.play [.tick]).2.level.instances.map (·.status) = [] := by
  have hpass : ∀ s : Simulation StillWorld, s.level.isReplica = false ∧
      (s.act .tick).dueHandles = [⟨1, 0⟩] ∧ ((s.act .tick).visit ⟨1, 0⟩).level.pending = [] ∧
      ((s.act .tick).visit ⟨1, 0⟩).level.ready = [] →
      s.tick = ((s.act .tick).visit ⟨1, 0⟩).reap := by
    intro s h
    rw [← actAll_tickActs, tickActs, if_neg (by simp [h.1]), actAll_cons, actAll_passActs, h.2.1,
      List.foldl_cons, List.foldl_nil]
    dsimp only
    rw [settle_done h.2.2.1 h.2.2.2]
  -- Stated for all simulations, so that nothing has to be executed to see it.
  have hplay : ∀ s : Simulation StillWorld, (s.play [.tick]).2 = s.tick ∧
      (s.play [.setStatus 2 (.delayed 3), .tick]).2 = (s.setStatus 2 (.delayed 3)).2.tick :=
    fun _ => ⟨rfl, rfl⟩
  obtain ⟨-, -, -, hwaiting, hawake, ⟨hdelayed, hlater⟩, hplain, hgone⟩ := facts
  refine ⟨?_, hwaiting, hawake, ?_, ?_⟩
  · simp only [play]
    rw [run_started, run_waiting, run_awake]
  · rw [(hplay awake).2, ← delayed, hpass delayed hdelayed]
    exact hlater
  · rw [(hplay awake).1, hpass awake hplain]
    exact hgone

end PutOff

end LevelScript
