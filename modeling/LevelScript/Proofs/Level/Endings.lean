import LevelScript.Proofs.Level.Dormancy
import LevelScript.Proofs.Level.Replay

/-!
# What ends a wait for a script

An instance that waits for the end of a script waits until an instance of that script is removed.
The wait begins with the tracked instance. But every removal ends it, also that of an instance that
was started besides others: then the script that is waited for may still be there.

* `Simulation.waits_turn`: no turn ends such a wait.
* `Simulation.removed_of_woken`: a removal does, or the status is set.
* `wait_ends_at_removal`: which removals end a wait, and what is tracked then.
* `Bystander.woken_before_target_ends`: a wait that ends while its target is there.
-/

namespace LevelScript

namespace Simulation

variable {ω : Type} [Host ω] {s : Simulation ω} {h k : Handle} {i j r : Instance} {n : Int32}

/-- In its own turn an instance goes on waiting for the end of a script. -/
theorem waits_turn (hl : s.level.Sound) (hi : s.level.instance? h = some i)
    (hwait : i.status = .scriptWait n) (hj : (s.act (.turn h)).level.instance? h = some j) :
    j.status = .scriptWait n := by
  have hready : ¬ s.Ready i.status := by
    rw [hwait]
    exact id
  have hadvance :
      (s.advance i).1 = { i with lastTick := s.level.tick, status := .scriptWait n } := by
    unfold advance
    dsimp only
    rw [if_neg (mt (s.nextStatus_eq_running_iff i.status).mp hready), hwait]
    rfl
  have hturn : (s.turn h).level.instance? h = some j := hj
  rw [instance?_turn hl hi, if_pos rfl, hadvance] at hturn
  rw [← Option.some.inj hturn]

/-- If an instance waits for the end of a script before an act, and runs after it, then it was set
to run, or an instance of that script was removed. -/
theorem removed_of_woken (hl : s.level.Sound) (hi : s.level.instance? h = some i)
    (hwait : i.status = .scriptWait n) {a : Act} (hj : (s.act a).level.instance? h = some j)
    (hrun : j.status = .running) :
    s.level.find? i.number = some h ∧ a.SetsStatus s.level i.number .running ∨
      ∃ k r, a = .remove k ∧ k ≠ h ∧ s.level.instance? k = some r ∧ r.number = n := by
  by_cases ha : a = .turn h
  · subst ha
    rw [waits_turn hl hi hwait hj] at hrun
    cases hrun
  · rcases accounts_act hl a h j hj ha with ⟨i', hi', hside⟩ | ⟨hnone, -⟩
    · obtain rfl : i = i' := Option.some.inj (hi.symm.trans hi')
      cases hside with
      | same =>
        rw [hwait] at hrun
        cases hrun
      | postponed =>
        have hkept : i.status = .running := hrun
        rw [hwait] at hkept
        cases hkept
      | promoted wait => cases hrun
      | @woken k r wait removal other removed =>
        rw [hwait] at wait
        exact .inr ⟨k, r, removal, other, removed, (Status.scriptWait.inj wait).symm⟩
      | resumed tracked launch wait =>
        rw [hwait] at wait
        cases wait
      | @set st tracked sets alive =>
        obtain rfl : st = .running := hrun
        exact .inl ⟨tracked, sets⟩
    · rw [hi] at hnone
      cases hnone

/-- Removing an instance of a script lets those run that wait for its end. The script is tracked
as before, unless it was the tracked instance. -/
theorem woken_remove (hl : s.level.Sound) (hi : s.level.instance? h = some i)
    (hwait : i.status = .scriptWait n) (hne : k ≠ h) (hr : s.level.instance? k = some r)
    (hn : r.number = n) :
    (s.act (.remove k)).level.instance? h = some { i with status := .running } ∧
    (s.act (.remove k)).level.find? n =
      if s.level.find? n = some k then none else s.level.find? n := by
  have hlevel : (s.act (.remove k)).level = s.level.remove k := by
    show (s.remove k).level = _
    rw [remove, hr]
    rfl
  rw [hlevel]
  constructor
  · rw [Level.instance?_remove hl.roster hr, if_neg (Ne.symm hne), hi, Option.map_some,
      Level.woken, if_pos (by rw [hwait, hn])]
    rfl
  · rw [Level.find?_remove hr, hn]
    simp only [true_and]

end Simulation

/-- **A wait for a script ends when an instance of the script is removed.** If in any operation an
instance stops waiting for the end of a script and runs, without being set to do so, then an
instance of that script was removed right then, which had ended; and the script is no longer
tracked, unless the removed instance was not the tracked one. And any removal of an instance of
the script, tracked or not, ends all waits for it. -/
theorem wait_ends_at_removal {ω : Type} [Host ω] {s : Simulation ω}
    (hs : s.level.Reachable Level.Fresh fun _ => True) {op : Operation} {before after : List Act}
    {a : Act} (hacts : op.acts s = before ++ a :: after) {h : Handle} {i : Instance} {n : Int32}
    (hi : (s.actAll before).level.instance? h = some i) (hwait : i.status = .scriptWait n) :
    let t := s.actAll before
    (∀ j, (t.act a).level.instance? h = some j → j.status = .running →
      ¬ a.SetsStatus t.level i.number .running →
      ∃ k r, a = .remove k ∧ k ≠ h ∧ t.level.instance? k = some r ∧ r.number = n ∧
        r.status.isTerminal = true ∧
        ((t.act a).level.find? n = none ∨ t.level.find? n ≠ some k)) ∧
    (∀ k r, a = .remove k → k ≠ h → t.level.instance? k = some r → r.number = n →
      (t.act a).level.instance? h = some { i with status := .running } ∧
      (t.act a).level.find? n =
        if t.level.find? n = some k then none else t.level.find? n) := by
  intro t
  have hrest := hs.atRest
  have hl : t.level.Sound := Simulation.sound_actAll hrest.sound before
  constructor
  · intro j hj hrun hset
    rcases Simulation.removed_of_woken hl hi hwait hj hrun with ⟨-, hsets⟩ |
      ⟨k, r, rfl, hne, hr, hn⟩
    · exact absurd hsets hset
    · have hsets : op.Sets fun _ => True := by cases op <;> trivial
      obtain ⟨-, ⟨-, hended⟩, -⟩ := op.proper_within Simulation.closed_true hrest hsets hacts nofun
      refine ⟨k, r, rfl, hne, hr, hn, hended r hr, ?_⟩
      rw [(Simulation.woken_remove hl hi hwait hne hr hn).2]
      by_cases htracked : t.level.find? n = some k
      · exact .inl (if_pos htracked)
      · exact .inr htracked
  · rintro k r rfl hne hr hn
    exact Simulation.woken_remove hl hi hwait hne hr hn

namespace Bystander

open Simulation

/-- Script 1 ends at once, and script 2 when script 1 has ended. -/
def program : Program :=
  { (default : Program) with
    image := #[82, 0, 0, 0, 1, 0, 0, 0, 1, 0, 0, 0]
    layout := .enhanced .wide
    scripts := [{ (default : Script) with number := 1, entry := 8 },
      { (default : Script) with number := 2 }] }

def idle : Simulation StillWorld := ⟨.start program 1 .standard, .empty, default, default⟩

/-- Script 1 is started and did not run yet. -/
def started : Simulation StillWorld := (idle.start { script := 1, deferStart := true }).2.reap

/-- Script 2 waits for its end. -/
def waiting : Simulation StillWorld :=
  ((started.start { script := 2 }).2.dropReady.visit ⟨1, 0⟩).reap

/-- Script 1 is started besides the instance that did not run yet. -/
def joined : Simulation StillWorld := (waiting.start { script := 1, always := true }).2

/-- The instance that was started besides ends in its first turn. -/
def ended : Simulation StillWorld := joined.dropReady.turn ⟨2, 0⟩

/-- What happens, step by step. -/
theorem facts :
    (started.level.isReplica = false ∧ (started.start { script := 2 }).2.level.pending = [] ∧
      (started.start { script := 2 }).2.level.ready = [⟨1, 0⟩] ∧
      ((started.start { script := 2 }).2.dropReady.visit ⟨1, 0⟩).level.pending = [] ∧
      ((started.start { script := 2 }).2.dropReady.visit ⟨1, 0⟩).level.ready = []) ∧
    (waiting.level.isReplica = false ∧ joined.level.pending = [] ∧
      joined.level.ready = [⟨2, 0⟩] ∧
      joined.dropReady.visitActs ⟨2, 0⟩ = [.turn ⟨2, 0⟩, .remove ⟨2, 0⟩] ∧
      (joined.dropReady.visit ⟨2, 0⟩).level.pending = [] ∧
      (joined.dropReady.visit ⟨2, 0⟩).level.ready = [] ∧
      (joined.dropReady.visit ⟨2, 0⟩).reapActs = []) ∧
    (ended.level.find? 1 = some ⟨0, 0⟩ ∧
      (ended.level.instance? ⟨1, 0⟩).map (·.status) = some (.scriptWait 1) ∧
      (ended.level.instance? ⟨2, 0⟩).map (·.number) = some 1) ∧
    ((ended.act (.remove ⟨2, 0⟩)).level.instance? ⟨1, 0⟩).map (·.status) = some .running ∧
    (ended.act (.remove ⟨2, 0⟩)).level.find? 1 = some ⟨0, 0⟩ ∧
    ((ended.act (.remove ⟨2, 0⟩)).level.instance? ⟨0, 0⟩).map (·.status) = some .running := by
  decide +kernel

theorem run_started :
    (Operation.run idle (.launch { script := 1, deferStart := true })).2 = started :=
  Operation.run_launch_deferred (by decide +kernel) (by decide +kernel) (by decide +kernel)

theorem run_waiting : (Operation.run started (.launch { script := 2 })).2 = waiting := by
  obtain ⟨⟨hreplica, hpending, hready, hpending', hready'⟩, -⟩ := facts
  exact Operation.run_launch hreplica hpending hready hpending' hready'

theorem reachable_waiting : waiting.level.Reachable Level.Fresh fun _ => True := by
  have hidle : idle.level.Reachable Level.Fresh fun _ => True :=
    .origin (.start program 1 .standard)
  have hstarted : started.level.Reachable Level.Fresh fun _ => True :=
    run_started ▸ hidle.run trivial
  exact run_waiting ▸ hstarted.run trivial

theorem acts_joined :
    Operation.acts waiting (.launch { script := 1, always := true }) =
      [.start { script := 1, always := true }, .takeReady, .turn ⟨2, 0⟩] ++
        .remove ⟨2, 0⟩ :: [] := by
  obtain ⟨-, ⟨hreplica, hpending, hready, hvisit, hpending', hready', hreap⟩, -⟩ := facts
  rw [joined] at hpending hready hvisit hpending' hready' hreap
  rw [Operation.acts_launch hreplica hpending hready, hvisit, settleActs_done hpending' hready',
    hreap]
  rfl

theorem actAll_joined :
    waiting.actAll [.start { script := 1, always := true }, .takeReady, .turn ⟨2, 0⟩] = ended := by
  rw [actAll_cons, actAll_cons, actAll_cons, actAll_nil]
  rfl

/-- The end of the instance that was started besides wakes script 2. -/
theorem wait_ends_at_removal_bystander :
    ∃ i, waiting.level.Reachable Level.Fresh (fun _ => True) ∧
      ended.level.instance? ⟨1, 0⟩ = some i ∧ i.status = .scriptWait 1 ∧
      ended.level.find? 1 = some ⟨0, 0⟩ ∧
      (ended.act (.remove ⟨2, 0⟩)).level.instance? ⟨1, 0⟩ =
        some { i with status := .running } ∧
      (ended.act (.remove ⟨2, 0⟩)).level.find? 1 = some ⟨0, 0⟩ := by
  obtain ⟨-, -, ⟨hfind, hwaits, hother⟩, -⟩ := facts
  obtain ⟨i, hi, hwait⟩ := Option.map_eq_some_iff.mp hwaits
  obtain ⟨r, hr, hn⟩ := Option.map_eq_some_iff.mp hother
  have hends := wait_ends_at_removal reachable_waiting acts_joined (actAll_joined ▸ hi) hwait
  rw [actAll_joined] at hends
  obtain ⟨hrun, htracked⟩ := hends.2 ⟨2, 0⟩ r rfl (by decide) hr hn
  rw [hfind, if_neg (by decide)] at htracked
  exact ⟨i, reachable_waiting, hi, hwait, hfind, hrun, htracked⟩

/-- A script waits for another one. It runs again when an instance that was started besides that
one has ended, while that one has not even run. -/
theorem woken_before_target_ends :
    (idle.play [.launch { script := 1, deferStart := true }, .launch { script := 2 }]).2 =
      waiting ∧
    Operation.acts waiting (.launch { script := 1, always := true }) =
      [.start { script := 1, always := true }, .takeReady, .turn ⟨2, 0⟩] ++
        .remove ⟨2, 0⟩ :: [] ∧
    waiting.actAll [.start { script := 1, always := true }, .takeReady, .turn ⟨2, 0⟩] = ended ∧
    (ended.level.instance? ⟨1, 0⟩).map (·.status) = some (.scriptWait 1) ∧
    ((ended.act (.remove ⟨2, 0⟩)).level.instance? ⟨1, 0⟩).map (·.status) = some .running ∧
    (ended.act (.remove ⟨2, 0⟩)).level.find? 1 = some ⟨0, 0⟩ ∧
    ((ended.act (.remove ⟨2, 0⟩)).level.instance? ⟨0, 0⟩).map (·.status) = some .running := by
  obtain ⟨-, -, ⟨-, hwaits, -⟩, hafter⟩ := facts
  have hplay : (idle.play [.launch { script := 1, deferStart := true },
      .launch { script := 2 }]).2 = waiting := by
    show (Operation.run (Operation.run idle _).2 _).2 = waiting
    rw [run_started, run_waiting]
  exact ⟨hplay, acts_joined, actAll_joined, hwaits, hafter⟩

end Bystander

end LevelScript
