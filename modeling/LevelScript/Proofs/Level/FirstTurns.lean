import LevelScript.Proofs.Level.Errands
import LevelScript.Proofs.Level.Reaping

/-!
# Instances whose first turn is over

Apart from the visits of a tick, only new instances take turns, each right after it was taken out
of its queue. So an instance that is not in the queue takes none until the next tick; there it
takes exactly one, unless it has ended and is removed before.

* `Simulation.FirstTurns`: all turns among the acts are first turns.
* `Operation.firstTurns_acts`: so they are in every operation but a tick.
* `Simulation.turn_or_remove`: what a tick does to an instance that is due.
* `Simulation.turn_once`: an instance that stays does not take two turns in a tick.
-/

namespace LevelScript

theorem Operation.sets_any (op : Operation) : op.Sets fun _ => True := by
  cases op <;> trivial

namespace Simulation

variable {ω : Type} [Host ω] {s : Simulation ω} {acts : List Act} {h : Handle} {i : Instance}

/-! ## First turns -/

/-- Whoever takes a turn was the first of the new instances, and is taken out of their queue right
before. -/
def FirstTurns (s : Simulation ω) (acts : List Act) : Prop :=
  ∀ xs h ys, acts = xs ++ .turn h :: ys →
    ∃ front rest, xs = front ++ [.takeReady] ∧ (s.actAll front).level.ready = h :: rest

theorem firstTurns_of_none (hacts : ∀ a ∈ acts, a.isTurn = false) : s.FirstTurns acts := by
  rintro xs h ys rfl
  exact absurd (hacts (.turn h) (by simp)) (by simp [Act.isTurn])

theorem FirstTurns.append {more : List Act} (hs : s.FirstTurns acts)
    (hmore : (s.actAll acts).FirstTurns more) : s.FirstTurns (acts ++ more) := by
  intro xs h ys heq
  rcases List.append_eq_append_iff.mp heq with ⟨us, rfl, hus⟩ | ⟨us, rfl, hus⟩
  · obtain ⟨front, rest, rfl, hready⟩ := hmore us h ys hus
    exact ⟨acts ++ front, rest, by rw [List.append_assoc], by rwa [actAll_append]⟩
  · cases us with
    | nil =>
      -- The turn is the first of the later acts.
      obtain ⟨front, rest, hnil, -⟩ := hmore [] h ys (by simpa using hus.symm)
      simp at hnil
    | cons a us =>
      rw [List.cons_append, List.cons.injEq] at hus
      obtain ⟨rfl, -⟩ := hus
      exact hs xs h us rfl

omit [Host ω] in
theorem isTurn_reapActs (s : Simulation ω) : ∀ a ∈ s.reapActs, a.isTurn = false := by
  intro a ha
  rcases mem_reapActs ha with rfl | ⟨h, rfl⟩ <;> rfl

/-- A first turn, with the removal of an instance that ended in it. -/
theorem firstTurns_visit {rest : List Handle} (hr : s.level.ready = h :: rest) :
    s.FirstTurns (.takeReady :: s.dropReady.visitActs h) := by
  intro xs k ys heq
  cases xs with
  | nil => cases heq
  | cons a xs =>
    rw [List.cons_append, List.cons.injEq] at heq
    obtain ⟨rfl, hvisit⟩ := heq
    have hk : k = h := turn_mem_visitActs (s := s.dropReady) (by simp [hvisit])
    subst hk
    obtain rfl : xs = [] := by
      unfold visitActs at hvisit
      split at hvisit
      · simp at hvisit
      · split at hvisit
        · split at hvisit
          · cases xs with
            | nil => rfl
            | cons b xs => cases xs <;> simp at hvisit
          · cases xs <;> simp at hvisit
            rfl
        · simp at hvisit
    exact ⟨[], rest, rfl, hr⟩

theorem firstTurns_settleActs (left : Nat) (s : Simulation ω) :
    s.FirstTurns (s.settleActs left) := by
  refine settleActs_induct (P := FirstTurns) (fun hx hy => hx.append hy) (fun s r rest _ => ?_)
    (fun s h rest hr => firstTurns_visit hr) (fun s h rest _ => ?_)
    (fun s _ _ => firstTurns_of_none s.isTurn_reapActs) left s
  · exact firstTurns_of_none (by simp [Act.isTurn])
  · exact firstTurns_of_none (by simp [Act.isTurn])

end Simulation

/-- Except in ticks, all turns are first turns. -/
theorem Operation.firstTurns_acts {ω : Type} [Host ω] (s : Simulation ω) {op : Operation}
    (hop : op ≠ .tick) : s.FirstTurns (op.acts s) := by
  refine acts_induct (P := Simulation.FirstTurns) (fun s => ?_) (fun hx hy => hx.append hy)
    (fun s a ha => ?_) (fun s => s.firstTurns_settleActs _) s fun h => absurd h hop
  · exact Simulation.firstTurns_of_none fun a ha => absurd ha List.not_mem_nil
  · exact Simulation.firstTurns_of_none (by simp [ha.isTurn])

namespace Simulation

variable {ω : Type} [Host ω] {s : Simulation ω} {acts : List Act} {h : Handle} {i : Instance}

/-! ## Instances that are not new -/

/-- An act that does not remove the instance leaves it there, as `Aside` says if it is not its
turn. -/
theorem exists_aside (hl : s.level.Sound) (hi : s.level.instance? h = some i) {a : Act}
    (hturn : a ≠ .turn h) (hremove : a ≠ .remove h) (hdrop : a ≠ .terminateAll) :
    ∃ j, (s.act a).level.instance? h = some j ∧ s.level.Aside a h i j := by
  obtain ⟨j, hj, hfate⟩ := exists_fate hl hi hremove hdrop
  refine ⟨j, hj, ?_⟩
  cases hfate with
  | turn act => exact absurd act hturn
  | postpone => exact .postponed
  | aside _ _ aside => exact aside

/-- Nobody who is there comes into the queue again. -/
theorem not_ready_act (hl : s.level.Sound) (hi : s.level.instance? h = some i)
    (hready : h ∉ s.level.ready) (a : Act) : h ∉ (s.act a).level.ready :=
  mt ((step_act s a).ready_of_old hl hi) hready

/-! ## Turns in a tick -/

theorem visitActs_of_due (hi : s.level.instance? h = some i) (hdue : s.isDue i = true) :
    ∃ more, s.visitActs h = .turn h :: more := by
  unfold visitActs
  rw [hi]
  dsimp only
  rw [if_pos hdue]
  split
  · exact ⟨_, rfl⟩
  · exact ⟨_, rfl⟩

/-- In a tick, an instance that is due takes a turn, unless it is removed before. -/
theorem turn_or_remove (hl : s.level.AtRest) (hrole : s.level.isReplica = false)
    (hi : s.level.instance? h = some i) (hlast : i.lastTick ≠ s.level.tick + 1) :
    ∃ xs a ys, s.tickActs = .tick :: (xs ++ a :: ys) ∧ (a = .turn h ∨ a = .remove h) ∧
      .turn h ∉ xs ∧ .remove h ∉ xs := by
  have hacts : s.tickActs =
      .tick :: (s.act .tick).passActs maxFirstTurns (s.act .tick).dueHandles := by
    rw [tickActs, if_neg (by simp [hrole])]
  have hl' := sound_act hl.sound .tick
  have hproper : (s.act .tick).Proper (fun _ => True) _ :=
    proper_passActs closed_true maxFirstTurns hl' hl.quiet (s.act .tick).dueHandles
  have hround := allInRound_passActs maxFirstTurns (s.act .tick) (s.act .tick).dueHandles
  generalize hpass : (s.act .tick).passActs maxFirstTurns (s.act .tick).dueHandles = acts
    at hacts hproper hround
  have hfound : ∃ a ∈ acts, a = .turn h ∨ a = .remove h := by
    by_contra hnot
    have hturn : .turn h ∉ acts := fun hmem => hnot ⟨_, hmem, .inl rfl⟩
    have hremove : .remove h ∉ acts := fun hmem => hnot ⟨_, hmem, .inr rfl⟩
    -- It would go without the mark of the tick.
    have hready : h ∉ (s.act .tick).level.ready := by
      rw [show (s.act .tick).level.ready = s.level.ready from rfl, hl.quiet.2]
      exact List.not_mem_nil
    obtain ⟨j, hj, hsame⟩ := waits_on hl' hround hproper hi hready hturn hremove
    have hend : (s.act .tick).actAll acts = s.tick := by
      rw [← actAll_tickActs, hacts, actAll_cons]
    have hmark := stamped_tick hl.sound hrole hl.quiet (hend ▸ hj)
    rw [← hend, tick_of_proper hproper] at hmark
    exact hlast (hsame.symm.trans hmark)
  obtain ⟨a, hmem, ha⟩ := hfound
  have hsome : (acts.find? fun a => decide (a = .turn h ∨ a = .remove h)).isSome := by
    rw [List.find?_isSome]
    exact ⟨a, hmem, by simpa using ha⟩
  obtain ⟨b, hfirst⟩ := Option.isSome_iff_exists.mp hsome
  obtain ⟨hb, xs, ys, rfl, hxs⟩ := List.find?_eq_some_iff_append.mp hfirst
  refine ⟨xs, b, ys, hacts, of_decide_eq_true hb, fun hmem => ?_, fun hmem => ?_⟩
  · simpa using hxs _ hmem
  · simpa using hxs _ hmem

/-- In a tick, an instance that was there before takes no second turn unless it is removed in
between. -/
theorem turn_once (hl : s.level.AtRest) (hi : s.level.instance? h = some i) {xs ys zs : List Act}
    (hacts : s.tickActs = .tick :: (xs ++ .turn h :: (ys ++ .turn h :: zs)))
    (hxs : .remove h ∉ xs) : .remove h ∈ ys := by
  by_contra hys
  have hpass : (s.act .tick).passActs maxFirstTurns (s.act .tick).dueHandles =
      xs ++ .turn h :: (ys ++ .turn h :: zs) := by
    unfold tickActs at hacts
    split at hacts
    · cases hacts
    · exact (List.cons.inj hacts).2
  have hseated : (s.act .tick).Seated [h] := by
    intro k hk
    obtain rfl := List.mem_singleton.mp hk
    refine ⟨⟨i, hi⟩, ?_⟩
    rw [show (s.act .tick).level.ready = s.level.ready from rfl, hl.quiet.2]
    exact List.not_mem_nil
  have hl' := sound_act hl.sound .tick
  have hsub := turnsOf_passActs maxFirstTurns hl' hseated (s.act .tick).dueHandles
  rw [hpass] at hsub
  have hnodup := (Level.handlesWhere_waits hl'.roster fun i =>
    i.lastTick != (s.act .tick).level.tick).1.sublist hsub
  have hkept (acts : List Act) (hremove : .remove h ∉ acts) : remaining [h] acts = [h] :=
    remaining_eq_self (by simpa using hremove)
  have hturn : turnsOf [h] [.turn h] = [h] := by simp [turnsOf]
  rw [turnsOf_append, hkept xs hxs, turnsOf_cons, hkept _ (by simp), hturn, turnsOf_append,
    hkept ys hys, turnsOf_cons, hturn] at hnodup
  have htwo := (List.nodup_append.mp hnodup).2.1
  simp at htwo

end Simulation

end LevelScript
