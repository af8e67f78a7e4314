import LevelScript.Proofs.Level.Wakeups

/-!
# Instances that do not run

An instance executes instructions only in a turn for which it is ready. Until then its turns only
move its wait on, and besides them its status changes only where its script is launched or set.
One that has ended stays so until it is removed.

* `Simulation.Ready`: the statuses in which an instance runs in its turn.
* `Course`: the moments of a run, one after the other.
* `Course.status_of_terminal`: an instance that has ended stays so along a run.
* `Occasion.dormant_until_ready`: the moments of every run of operations.
-/

namespace LevelScript

/-- The instance neither runs nor waits for another script. -/
def Status.isDormant : Status → Bool
  | running | scriptWaitPre _ | scriptWait _ => false
  | _ => true

/-! ## Turns -/

namespace Simulation

variable {ω : Type} [Host ω] {s : Simulation ω} {h : Handle} {i : Instance}

/-- An instance with this status runs in its turn. -/
def Ready (s : Simulation ω) : Status → Prop
  | .running => True
  | .delayed ticks => ticks ≤ 1
  | .tagWait tag => (Host.answer (.sectorBusy tag) s.world).1 = false
  | .polyWait id => (Host.answer (.polyobjBusy id) s.world).1 = false
  | _ => False

theorem nextStatus_eq_running_iff (s : Simulation ω) (st : Status) :
    (s.nextStatus st).1 = .running ↔ s.Ready st := by
  cases st with
  | running => exact ⟨fun _ => trivial, fun _ => rfl⟩
  | delayed ticks =>
    show (if ticks ≤ 1 then Status.running else .delayed (ticks - 1)) = .running ↔ ticks ≤ 1
    split <;> simp_all
  | tagWait tag =>
    show (if (Host.answer (.sectorBusy tag) s.world).1 then Status.tagWait tag else .running) =
      .running ↔ (Host.answer (.sectorBusy tag) s.world).1 = false
    split <;> simp_all
  | polyWait id =>
    show (if (Host.answer (.polyobjBusy id) s.world).1 then Status.polyWait id else .running) =
      .running ↔ (Host.answer (.polyobjBusy id) s.world).1 = false
    split <;> simp_all
  | scriptWaitPre script =>
    refine ⟨fun hrun => ?_, False.elim⟩
    have hne : promoteIfTracked s.level (.scriptWaitPre script) ≠ .running := by
      unfold promoteIfTracked
      dsimp only
      split <;> simp
    exact hne hrun
  | _ => exact ⟨nofun, False.elim⟩

theorem turn_of_ready (hi : s.level.instance? h = some i) (hready : s.Ready i.status) :
    s.turn h =
      let r := (s.nextStatus i.status).2.dispatch
        { i with lastTick := s.level.tick, status := .running }
      r.2.seat h r.1 := by
  have hrun := (s.nextStatus_eq_running_iff i.status).mpr hready
  have hadvance : s.advance i = (s.nextStatus i.status).2.dispatch
      { i with lastTick := s.level.tick, status := .running } := by
    unfold advance
    dsimp only
    rw [if_pos hrun, hrun, level_nextStatus]
  rw [turn, hi, ← hadvance]

/-- A turn without instructions: the host may be asked, and the wait moves on. -/
theorem turn_of_not_ready (hi : s.level.instance? h = some i) (hready : ¬ s.Ready i.status) :
    s.turn h = (s.nextStatus i.status).2.seat h
      { i with lastTick := s.level.tick, status := (s.nextStatus i.status).1 } := by
  have hrun := mt (s.nextStatus_eq_running_iff i.status).mp hready
  have hadvance : s.advance i = ({ i with lastTick := s.level.tick
                                          status := (s.nextStatus i.status).1 },
      (s.nextStatus i.status).2) := by
    unfold advance
    dsimp only
    rw [if_neg hrun, level_nextStatus]
  rw [turn, hi]
  dsimp only
  rw [hadvance]

theorem not_ready_of_terminal (s : Simulation ω) {st : Status} (h : st.isTerminal = true) :
    ¬ s.Ready st := by
  cases st with
  | pleaseRemove => exact id
  | divideByZero => exact id
  | modulusByZero => exact id
  | _ => cases h

theorem nextStatus_of_terminal (s : Simulation ω) {st : Status} (h : st.isTerminal = true) :
    s.nextStatus st = (st, s) := by
  cases st with
  | pleaseRemove => rfl
  | divideByZero => rfl
  | modulusByZero => rfl
  | _ => cases h

end Simulation

/-! ## Other acts -/

namespace Level

variable {l : Level} {a : Act} {h : Handle} {i j : Instance}

/-- Besides its turns an instance executes nothing. -/
theorem Aside.eq (hside : l.Aside a h i j) :
    j = { i with status := j.status, lastTick := j.lastTick } := by
  cases hside <;> rfl

/-- Besides its turns, the status of a dormant instance changes only if it is the tracked one of
its script: it is launched while it is suspended, or its status is set. -/
theorem Aside.dormant (hside : l.Aside a h i j) (hi : i.status.isDormant = true) :
    j.status = i.status ∨ l.find? i.number = some h ∧
      (i.status = .suspended ∧ j.status = .running ∧ a.Launches l i.number ∨
        i.status.isTerminal = false ∧ a.SetsStatus l i.number j.status) := by
  cases hside with
  | same => exact .inl rfl
  | postponed => exact .inl rfl
  | promoted wait =>
    rw [wait] at hi
    cases hi
  | woken wait =>
    rw [wait] at hi
    cases hi
  | resumed tracked launch wait => exact .inr ⟨tracked, .inl ⟨wait, rfl, launch⟩⟩
  | set tracked sets alive => exact .inr ⟨tracked, .inr ⟨alive, sets⟩⟩

/-- Besides its turns, an instance that has ended stays so. -/
theorem Aside.terminal (hside : l.Aside a h i j) (hi : i.status.isTerminal = true) :
    j.status = i.status := by
  have hdormant : i.status.isDormant = true := by
    cases hst : i.status with
    | pleaseRemove => rfl
    | divideByZero => rfl
    | modulusByZero => rfl
    | _ =>
      rw [hst] at hi
      cases hi
  rcases hside.dormant hdormant with hsame | ⟨-, ⟨hst, -⟩ | ⟨halive, -⟩⟩
  · exact hsame
  · rw [hst] at hi
    cases hi
  · rw [halive] at hi
    cases hi

end Level

/-- No act changes the status of an instance that has ended. -/
theorem Simulation.status_of_terminal {ω : Type} [Host ω] {s : Simulation ω} {h : Handle}
    {i j : Instance} (hl : s.level.Sound) (hi : s.level.instance? h = some i)
    (hend : i.status.isTerminal = true) {a : Act} (hj : (s.act a).level.instance? h = some j) :
    j.status = i.status := by
  by_cases ha : a = .turn h
  · subst ha
    have hadvance := (instance?_turn hl hi h).trans (if_pos rfl)
    have hj' : (s.turn h).level.instance? h = some j := hj
    rw [hadvance] at hj'
    obtain rfl := Option.some.inj hj'
    have hnext := s.nextStatus_of_terminal hend
    have hrun : (s.nextStatus i.status).1 ≠ .running :=
      mt (s.nextStatus_eq_running_iff i.status).mp (s.not_ready_of_terminal hend)
    unfold advance
    dsimp only
    rw [if_neg hrun, hnext]
  · rcases accounts_act hl a h j hj ha with ⟨i', hi', hside⟩ | ⟨hnone, -⟩
    · obtain rfl : i = i' := Option.some.inj (hi.symm.trans hi')
      exact hside.terminal hend
    · rw [hi] at hnone
      cases hnone

/-! ## Runs -/

section Runs

variable {ω : Type} [Host ω]

/-- The moments of a run, each with the act that follows. -/
inductive Course : Level → List (Simulation ω × Act) → Level → Prop
  | nil (l : Level) : Course l [] l
  | cons {t : Simulation ω} {a : Act} {moments : List (Simulation ω × Act)} {l l' : Level}
      (here : t.level = l) (rest : Course (t.act a).level moments l') :
      Course l ((t, a) :: moments) l'

namespace Course

variable {l l' l'' : Level} {xs ys : List (Simulation ω × Act)}

theorem append (h : Course l xs l') (h' : Course l' ys l'') : Course l (xs ++ ys) l'' := by
  induction h with
  | nil => exact h'
  | cons here _ ih => exact .cons here (ih h')

theorem split (h : Course l (xs ++ ys) l'') : ∃ l', Course l xs l' ∧ Course l' ys l'' := by
  induction xs generalizing l with
  | nil => exact ⟨l, .nil l, h⟩
  | cons m xs ih =>
    cases h with
    | cons here rest =>
      obtain ⟨l', hxs, hys⟩ := ih rest
      exact ⟨l', .cons here hxs, hys⟩

/-- A course splits at each of its moments, at the level of that moment. -/
theorem split_at {t : Simulation ω} {a : Act} (h : Course l (xs ++ (t, a) :: ys) l'') :
    Course l xs t.level ∧ Course t.level ((t, a) :: ys) l'' := by
  obtain ⟨l', hxs, hys⟩ := h.split
  cases hys with
  | cons here rest => exact ⟨here ▸ hxs, .cons rfl rest⟩

theorem sound (h : Course l xs l') (hl : l.Sound) : l'.Sound := by
  induction h with
  | nil => exact hl
  | cons here _ ih =>
    subst here
    exact ih (Simulation.sound_act hl _)

/-- An instance that has ended stays so as long as it is there. -/
theorem status_of_terminal (hc : Course l xs l') (hl : l.Sound) {h : Handle} {i j : Instance}
    (hi : l.instance? h = some i) (hend : i.status.isTerminal = true)
    (hthere : ∀ m ∈ xs, m.1.level.instance? h ≠ none) (hj : l'.instance? h = some j) :
    j.status = i.status := by
  induction hc generalizing i with
  | nil => rw [Option.some.inj (hi.symm.trans hj)]
  | @cons t a xs l l' here rest ih =>
    subst here
    have hrest : ∀ m ∈ xs, m.1.level.instance? h ≠ none :=
      fun m hm => hthere m (List.mem_cons_of_mem _ hm)
    -- The instance is there after the act: at the next moment, or at the end.
    have hnext : (t.act a).level.instance? h ≠ none := by
      cases rest with
      | nil => simp [hj]
      | cons here _ => exact here ▸ hrest _ List.mem_cons_self
    obtain ⟨k, hk⟩ := Option.ne_none_iff_exists'.mp hnext
    have hstep := Simulation.status_of_terminal hl hi hend hk
    exact (ih (Simulation.sound_act hl a) hk (by rw [hstep, hend]) hrest hj).trans hstep

end Course

theorem Simulation.course_moments (s : Simulation ω) (acts : List Act) :
    Course s.level (s.moments acts) (s.actAll acts).level := by
  induction acts generalizing s with
  | nil => exact .nil _
  | cons a rest ih => exact .cons rfl (ih (s.act a))

namespace Occasion

/-- The level after operations, one after the other. -/
def applyAll : Level → List (Occasion ω) → Level
  | l, [] => l
  | l, o :: rest => applyAll (o.apply l) rest

/-- The moments of operations, one after the other. -/
def moments : Level → List (Occasion ω) → List (Simulation ω × Act)
  | _, [] => []
  | l, o :: rest => (o.enter l).moments (o.op.acts (o.enter l)) ++ moments (o.apply l) rest

theorem course_moments (l : Level) (os : List (Occasion ω)) :
    Course l (moments l os) (applyAll l os) := by
  induction os generalizing l with
  | nil => exact .nil l
  | cons o rest ih =>
    have hone := (o.enter l).course_moments (o.op.acts (o.enter l))
    rw [← o.op.run_eq_acts] at hone
    exact hone.append (ih (o.apply l))

/-- **No instance wakes up by itself.** At every moment of every run, an instance whose turn it is
runs if it is ready, and else only its wait moves on. Any other act leaves it as it is but for its
status and the tick it was put off to; and if it is dormant, its status changes only if it is the
tracked one of its script, by a launch that finds it suspended or by being set. If it has ended,
it stays so, and is not ready, at all later moments until it is removed. -/
theorem dormant_until_ready {l : Level} (hl : l.Reachable Level.Fresh fun _ => True)
    {os : List (Occasion ω)} {earlier later : List (Simulation ω × Act)} {t : Simulation ω}
    {a : Act} (hm : moments l os = earlier ++ (t, a) :: later) {h : Handle} {i : Instance}
    (hi : t.level.instance? h = some i) :
    (a = .turn h →
      (t.Ready i.status → t.act a =
        let r := (t.nextStatus i.status).2.dispatch
          { i with lastTick := t.level.tick, status := .running }
        r.2.seat h r.1) ∧
      (¬ t.Ready i.status → (t.nextStatus i.status).1 ≠ .running ∧
        t.act a = (t.nextStatus i.status).2.seat h
          { i with lastTick := t.level.tick, status := (t.nextStatus i.status).1 })) ∧
    (a ≠ .turn h → ∀ j, (t.act a).level.instance? h = some j →
      j = { i with status := j.status, lastTick := j.lastTick } ∧
      (i.status.isDormant = true →
        j.status = i.status ∨ t.level.find? i.number = some h ∧
          (i.status = .suspended ∧ j.status = .running ∧ a.Launches t.level i.number ∨
            i.status.isTerminal = false ∧ a.SetsStatus t.level i.number j.status))) ∧
    (i.status.isTerminal = true →
      (∀ between t' a' rest, (t, a) :: later = between ++ (t', a') :: rest →
        (∀ m ∈ between, m.1.level.instance? h ≠ none) → ∀ j, t'.level.instance? h = some j →
          j.status = i.status ∧ ¬ t'.Ready j.status) ∧
      ((∀ m ∈ later, m.1.level.instance? h ≠ none) → ∀ j, (applyAll l os).instance? h = some j →
        j.status = i.status)) := by
  have hcourse := course_moments l os
  rw [hm] at hcourse
  obtain ⟨l₁, hearlier, hnow⟩ := hcourse.split
  have hsound : l₁.Sound := hearlier.sound hl.atRest.sound
  obtain rfl : t.level = l₁ := by
    cases hnow with
    | cons here _ => exact here
  refine ⟨?_, fun ha j hj => ?_, fun hend => ⟨?_, fun hthere j hj => ?_⟩⟩
  · rintro rfl
    refine ⟨t.turn_of_ready hi, fun hready => ⟨?_, t.turn_of_not_ready hi hready⟩⟩
    exact mt (t.nextStatus_eq_running_iff i.status).mp hready
  · rcases Simulation.accounts_act hsound a h j hj ha with ⟨i', hi', hside⟩ | ⟨hnone, -⟩
    · obtain rfl : i = i' := Option.some.inj (hi.symm.trans hi')
      exact ⟨hside.eq, hside.dormant⟩
    · rw [hi] at hnone
      cases hnone
  · intro between t' a' rest hsplit hthere j hj
    rw [hsplit] at hnow
    obtain ⟨l₂, hbetween, hlater⟩ := hnow.split
    obtain rfl : t'.level = l₂ := by
      cases hlater with
      | cons here _ => exact here
    have hsame := hbetween.status_of_terminal hsound hi hend hthere hj
    exact ⟨hsame, t'.not_ready_of_terminal (by rw [hsame, hend])⟩
  · refine hnow.status_of_terminal hsound hi hend (fun m hmem => ?_) hj
    rcases List.mem_cons.mp hmem with rfl | hlater
    · simp [hi]
    · exact hthere m hlater

end Occasion

end Runs

namespace Ended

open Simulation

/-- Script 1 suspends itself. -/
def program : Program :=
  { (default : Program) with
    image := #[2, 0, 0, 0, 1, 0, 0, 0]
    layout := .enhanced .wide
    scripts := [{ (default : Script) with number := 1 }] }

def idle : Simulation StillWorld := ⟨.start program 1 .standard, .empty, default, default⟩

/-- Script 1 was launched, and is suspended. -/
def suspended : Simulation StillWorld :=
  ((idle.start { script := 1 }).2.dropReady.visit ⟨0, 0⟩).reap

theorem suspended_facts :
    (idle.start { script := 1 }).2.level.pending = [] ∧
    (idle.start { script := 1 }).2.level.ready = [⟨0, 0⟩] ∧
    ((idle.start { script := 1 }).2.dropReady.visit ⟨0, 0⟩).level.pending = [] ∧
    ((idle.start { script := 1 }).2.dropReady.visit ⟨0, 0⟩).level.ready = [] := by
  decide +kernel

theorem run_suspended : (Operation.run idle (.launch { script := 1 })).2 = suspended := by
  obtain ⟨hpending, hready, hpending', hready'⟩ := suspended_facts
  exact Operation.run_launch rfl hpending hready hpending' hready'

def occasion (op : Operation) : Occasion StillWorld := ⟨op, .empty, default, default⟩

/-- Script 1 was ended from outside, and is still there. -/
def ended : Simulation StillWorld :=
  (occasion .tick).enter ((occasion (.setStatus 1 .pleaseRemove)).apply suspended.level)

theorem ended_facts :
    (ended.level.instance? ⟨0, 0⟩).map (·.status) = some .pleaseRemove ∧
    ((ended.act .tick).level.instance? ⟨0, 0⟩).isSome = true ∧
    (((ended.act .tick).turn ⟨0, 0⟩).level.instance? ⟨0, 0⟩).isSome = true ∧
    ended.level.isReplica = false ∧ (ended.act .tick).dueHandles = [⟨0, 0⟩] ∧
    (ended.act .tick).visitActs ⟨0, 0⟩ = [.turn ⟨0, 0⟩, .remove ⟨0, 0⟩] ∧
    ((ended.act .tick).visit ⟨0, 0⟩).level.pending = [] ∧
    ((ended.act .tick).visit ⟨0, 0⟩).level.ready = [] ∧
    ((ended.act .tick).visit ⟨0, 0⟩).reapActs = [.reap] := by
  decide +kernel

/-- The tick gives the instance a turn, and removes it. -/
theorem tickActs_ended : ended.tickActs = [.tick, .turn ⟨0, 0⟩, .remove ⟨0, 0⟩, .reap] := by
  obtain ⟨-, -, -, hreplica, hdue, hvisit, hpending, hready, hreap⟩ := ended_facts
  rw [tickActs, if_neg (by simp [hreplica]), hdue, passActs, passActs, hvisit,
    settleActs_done hpending hready, hreap]
  rfl

/-- Between its turn and its removal, the ended instance has ended as before. -/
theorem dormant_until_ready_ended :
    let os := [occasion (.setStatus 1 .pleaseRemove), occasion .tick]
    let turned := (ended.act .tick).act (.turn ⟨0, 0⟩)
    ∃ i j, Level.Reachable Level.Fresh (fun _ => True) suspended.level ∧
      Occasion.moments suspended.level os =
        [((occasion (.setStatus 1 .pleaseRemove)).enter suspended.level,
          .setStatus 1 .pleaseRemove)] ++ (ended, .tick) :: [(ended.act .tick, .turn ⟨0, 0⟩),
            (turned, .remove ⟨0, 0⟩), (turned.act (.remove ⟨0, 0⟩), .reap)] ∧
      ended.level.instance? ⟨0, 0⟩ = some i ∧ i.status = .pleaseRemove ∧
      turned.level.instance? ⟨0, 0⟩ = some j ∧ j.status = i.status ∧ ¬ turned.Ready j.status := by
  intro os turned
  obtain ⟨hended, hthere, hturned, -⟩ := ended_facts
  obtain ⟨i, hi, hst⟩ := Option.map_eq_some_iff.mp hended
  obtain ⟨j, hj⟩ := Option.isSome_iff_exists.mp hturned
  have hidle : Level.Reachable Level.Fresh (fun _ => True) idle.level :=
    .origin (.start program 1 .standard)
  have hreach : Level.Reachable Level.Fresh (fun _ => True) suspended.level :=
    run_suspended ▸ hidle.run trivial
  have hmoments : Occasion.moments suspended.level os =
      [((occasion (.setStatus 1 .pleaseRemove)).enter suspended.level,
        .setStatus 1 .pleaseRemove)] ++ (ended, .tick) :: [(ended.act .tick, .turn ⟨0, 0⟩),
          (turned, .remove ⟨0, 0⟩), (turned.act (.remove ⟨0, 0⟩), .reap)] := by
    show _ ++ (ended.moments ended.tickActs ++ []) = _
    rw [tickActs_ended]
    rfl
  have hdormant := Occasion.dormant_until_ready hreach hmoments hi
  have hlater := (hdormant.2.2 (by rw [hst]; rfl)).1
    [(ended, .tick), (ended.act .tick, .turn ⟨0, 0⟩)] turned (.remove ⟨0, 0⟩) _ rfl (by
      simp [hi, Option.isSome_iff_ne_none.mp hthere]) j hj
  exact ⟨i, j, hreach, hmoments, hi, hst, hj, hlater⟩

end Ended

end LevelScript
