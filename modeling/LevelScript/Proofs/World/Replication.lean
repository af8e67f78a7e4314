import LevelScript.Proofs.World.Recorded

/-!
# Replicas

A replica runs nothing: it performs the effects that were sent to it, in the order in which they
were sent. It repeats every change of the other side then, since there each effect is sent once,
right after it was performed, and nothing else is sent.

* `Announced`: the records of calls that look like this.
* `Simulation.announced_act`: whatever is done to a level, the record of its host stays one of them.
-/

namespace LevelScript

/-! ## Records of calls -/

namespace Call

/-- Whether the call changes the world. -/
def isChange : Call → Bool
  | perform _ => true
  | _ => false

/-- The effect that the call sends. -/
def sent? : Call → Option Effect
  | broadcast e => some e
  | _ => none

theorem isChange_of_isQuestion {c : Call} (h : c.isQuestion = true) : c.isChange = false := by
  cases c <;> first | rfl | cases h

theorem sent?_of_isQuestion {c : Call} (h : c.isQuestion = true) : c.sent? = none := by
  cases c <;> first | rfl | cases h

end Call

/-- Every change is followed at once by its sending, and nothing else is sent. -/
inductive Announced : List Call → Prop where
  | nil : Announced []
  | question {calls : List Call} {c : Call} (h : Announced calls) (hc : c.isQuestion = true) :
      Announced (calls ++ [c])
  | change {calls : List Call} (h : Announced calls) (e : Effect) :
      Announced (calls ++ [.perform e, .broadcast e])

namespace Announced

variable {calls : List Call}

/-- The changes are what was sent. -/
theorem changes_eq (h : Announced calls) :
    calls.filter Call.isChange = (calls.filterMap Call.sent?).map .perform := by
  induction h with
  | nil => rfl
  | question _ hc ih =>
    rw [List.filter_append, List.filterMap_append, List.map_append, ih]
    simp [Call.isChange_of_isQuestion hc, Call.sent?_of_isQuestion hc]
  | change _ e ih =>
    rw [List.filter_append, List.filterMap_append, List.map_append, ih]
    rfl

theorem not_sent_first (h : Announced calls) (e : Effect) : calls[0]? ≠ some (.broadcast e) := by
  induction h with
  | nil => simp
  | @question calls c _ hc ih =>
    cases calls with
    | nil =>
      rintro ⟨⟩
      cases hc
    | cons => exact ih
  | @change calls _ _ ih =>
    cases calls with
    | nil => simp
    | cons => exact ih

/-- An effect is performed at one place in the record exactly if it is sent at the next. -/
theorem performed_iff_sent_next (h : Announced calls) (k : Nat) (e : Effect) :
    calls[k]? = some (.perform e) ↔ calls[k + 1]? = some (.broadcast e) := by
  induction h with
  | nil => simp
  | @question calls c _ hc ih =>
    have hperform : c ≠ .perform e := by rintro rfl; cases hc
    have hsend : c ≠ .broadcast e := by rintro rfl; cases hc
    grind
  | change _ e' ih => grind

end Announced

/-! ## What is done to a level -/

namespace Machine

variable {ω : Type} [Host ω] {ctx : Context} {moves yields : Bool} {m m' : Machine (Recorded ω)}

theorem Change.announced (h : Change ctx moves yields m m') (hm : Announced m.world.calls) :
    Announced m'.world.calls := by
  cases h with
  | ask c hc => exact hm.question hc
  | perform e =>
    have hsent := hm.change e
    rwa [List.append_cons] at hsent
  | _ => exact hm

theorem announced_run (program : Program) (config : Config) (m : Machine (Recorded ω))
    (hm : Announced m.world.calls) : Announced (m.run program config).2.world.calls := by
  rcases changes_run program config m with ⟨-, hrun⟩ | ⟨-, m', hchanges, hrun⟩
  · rw [hrun]
    exact hm
  · rw [hrun]
    exact hchanges.keep (P := fun m => Announced m.world.calls) (fun _ _ h => h.announced) hm

end Machine

namespace Simulation

variable {ω : Type} [Host ω] {s : Simulation (Recorded ω)} (hs : Announced s.world.calls)

include hs

theorem announced_ask {c : Call} (hc : c.isQuestion = true) :
    Announced (s.ask c).2.world.calls := hs.question hc

theorem announced_nextStatus (st : Status) :
    Announced (s.nextStatus st).2.world.calls := by
  cases st with
  | tagWait tag => exact announced_ask hs rfl
  | polyWait id => exact announced_ask hs rfl
  | _ => exact hs

theorem announced_advance (i : Instance) :
    Announced (s.advance i).2.world.calls := by
  have hnext := announced_nextStatus hs i.status
  unfold advance
  dsimp only
  split
  · rw [dispatch_eq]
    exact Machine.announced_run _ _ _ hnext
  · exact hnext

theorem announced_turn (h : Handle) :
    Announced (s.turn h).world.calls := by
  unfold turn
  split
  · exact hs
  · exact announced_advance hs _

theorem announced_route (r : Request) :
    Announced (s.route r).2.world.calls := by
  unfold route
  split
  · cases r with
    | execute map script args always activator line side =>
      cases activator with
      | none => exact hs
      | some a => exact announced_ask hs rfl
    | suspend => exact hs
    | terminate => exact hs
  · cases r with
    | execute => exact (start_frame s _).2.symm ▸ hs
    | suspend => exact hs
    | terminate => exact hs

theorem announced_deliver (e : DeferredEntry) :
    Announced (s.deliver e).world.calls := by
  have hactor : Announced (s.actorOf e.player).2.world.calls := by
    cases e.player with
    | none => exact hs
    | some p => exact announced_ask hs rfl
  unfold deliver
  split
  · exact hs
  · split
    · exact hs
    · exact hs
    all_goals
      dsimp only
      rw [(start_frame _ _).2]
      exact hactor

/-- Only turns, requests and what waited for the map ask anything of the host. -/
theorem announced_act (a : Act) :
    Announced (s.act a).world.calls := by
  cases a with
  | route r => exact announced_route hs r
  | start p => exact (start_frame s p).2.symm ▸ hs
  | deliver e => exact announced_deliver hs e
  | turn h => exact announced_turn hs h
  | remove h => exact (remove_frame s h).2.symm ▸ hs
  | _ => exact hs

theorem announced_actAll (acts : List Act) :
    Announced (s.actAll acts).world.calls := by
  induction acts generalizing s with
  | nil => exact hs
  | cons a rest ih => exact ih (announced_act hs a)

theorem announced_play (ops : List Operation) :
    Announced (s.play ops).2.world.calls := by
  induction ops generalizing s with
  | nil => exact hs
  | cons op rest ih =>
    apply ih
    rw [Operation.run_eq_acts]
    exact announced_actAll hs _

end Simulation

/-! ## The replica -/

/-- A replica performs what was sent to it. -/
def Effect.applyAll {ω : Type} [Host ω] (effects : List Effect) (w : ω) : ω :=
  effects.foldl (fun w e => (e.apply w).2) w

theorem Effect.calls_applyAll {ω : Type} [Host ω] (effects : List Effect) (r : Recorded ω) :
    (Effect.applyAll effects r).calls = r.calls ++ effects.map .perform := by
  induction effects generalizing r with
  | nil => simp [applyAll]
  | cons e rest ih =>
    have hone : (e.apply r).2.calls = r.calls ++ [.perform e] := rfl
    rw [applyAll, List.foldl_cons, ← applyAll, ih, hone]
    simp

/-- The simulation with a host that keeps a record, still empty. -/
def Simulation.recording {ω : Type} (s : Simulation ω) : Simulation (Recorded ω) :=
  ⟨s.level, s.session, ⟨s.world, []⟩, s.journal⟩

/-- Whatever is asked of a level, and whatever its host answers: an effect is performed exactly
where it is sent right after, nothing is sent at first, and a replica that applies what was sent
makes the same changes in the same order. -/
theorem replica_repeats_changes {ω ω' : Type} [Host ω] [Host ω'] (s : Simulation ω)
    (ops : List Operation) (replica : ω') :
    let calls := (s.recording.play ops).2.world.calls
    (∀ k e, calls[k]? = some (.perform e) ↔ calls[k + 1]? = some (.broadcast e)) ∧
      (∀ e, calls[0]? ≠ some (.broadcast e)) ∧
      (Effect.applyAll (calls.filterMap Call.sent?) (⟨replica, []⟩ : Recorded ω')).calls =
        calls.filter Call.isChange := by
  intro calls
  have hcalls : Announced calls := Simulation.announced_play .nil ops
  refine ⟨hcalls.performed_iff_sent_next, hcalls.not_sent_first, ?_⟩
  rw [Effect.calls_applyAll, hcalls.changes_eq]
  rfl

end LevelScript
