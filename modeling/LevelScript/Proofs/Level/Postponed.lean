import LevelScript.Proofs.Level.Settling

/-!
# Instances that are put off

A new instance for which no first turn is left is put off. It gets the mark of the tick and else
stays as it is, so that it takes no turn before the next tick, and takes one there unless it has
ended and is removed before.

* `Level.Spent`: an instance with the mark of the tick that is not in the queue.
* `Skips`: the instance takes no turn before it is gone.
* `Occasion.AwaitsTick`: what happens to it until the next tick, and in it.
* `settling_loses_no_start`: settling ends, first turns are taken in order, and nobody is lost.
-/

namespace LevelScript

/-! ## Turns before it is gone -/

/-- The instance is removed, or all are dropped. -/
def Gone (h : Handle) (acts : List Act) : Prop := .remove h ∈ acts ∨ .terminateAll ∈ acts

/-- The instance takes no turn before it is gone. -/
def Skips (h : Handle) (acts : List Act) : Prop :=
  ∀ us vs, acts = us ++ .turn h :: vs → Gone h us

section Skips

variable {h : Handle} {xs ys : List Act}

theorem gone_append : Gone h (xs ++ ys) ↔ Gone h xs ∨ Gone h ys := by
  unfold Gone
  simp only [List.mem_append]
  tauto

/-- It is enough to look at its first turn. -/
theorem skips_of_first
    (hfirst : ∀ us vs, xs = us ++ .turn h :: vs → .turn h ∉ us → Gone h us) : Skips h xs := by
  intro us vs heq
  by_cases hmem : Act.turn h ∈ us
  · obtain ⟨as, bs, rfl, has⟩ := Simulation.exists_first hmem
    rw [List.append_assoc, List.cons_append] at heq
    exact gone_append.mpr (.inl (hfirst as _ heq has))
  · exact hfirst us vs heq hmem

theorem Skips.not_mem (hx : Skips h xs) (hgone : ¬ Gone h xs) : .turn h ∉ xs := by
  intro hmem
  obtain ⟨us, vs, heq⟩ := List.append_of_mem hmem
  exact hgone (heq ▸ gone_append.mpr (.inl (hx us vs heq)))

theorem Skips.append (hx : Skips h xs) (hy : ¬ Gone h xs → Skips h ys) : Skips h (xs ++ ys) := by
  intro us vs heq
  by_cases hgone : Gone h xs
  · rcases List.append_eq_append_iff.mp heq with ⟨as, rfl, -⟩ | ⟨as, rfl, has⟩
    · exact gone_append.mpr (.inl hgone)
    · cases as with
      | nil => rwa [List.append_nil] at hgone
      | cons b as =>
        obtain ⟨rfl, -⟩ := List.cons.inj has
        exact hx us as rfl
  · rcases List.append_eq_append_iff.mp heq with ⟨as, rfl, has⟩ | ⟨as, rfl, has⟩
    · exact gone_append.mpr (.inr (hy hgone as vs has))
    · cases as with
      | nil =>
        have hnow := hy hgone [] vs (by simpa using has.symm)
        rcases hnow with hnow | hnow <;> cases hnow
      | cons b as =>
        obtain ⟨rfl, -⟩ := List.cons.inj has
        exact hx us as rfl

end Skips

/-! ## The mark of the tick -/

/-- The instance has the mark of the current tick and is not in the queue. Compared with `i`, only
its status is another one. -/
structure Level.Spent (l : Level) (h : Handle) (i : Instance) (now : UInt64) : Prop where
  tick : l.tick = now
  absent : h ∉ l.ready
  inst : ∃ st, l.instance? h = some { i with status := st, lastTick := now }

namespace Simulation

variable {ω : Type} [Host ω] {s : Simulation ω} {a : Act} {h : Handle} {i : Instance}
  {now : UInt64} {acts : List Act}

theorem spent_act (hl : s.level.Sound) (hs : s.level.Spent h i now) (htick : a ≠ .tick)
    (hturn : a ≠ .turn h) (hremove : a ≠ .remove h) (hdrop : a ≠ .terminateAll) :
    (s.act a).level.Spent h i now := by
  obtain ⟨hnow, habsent, st, hi⟩ := hs
  obtain ⟨j, hj, hside⟩ := exists_aside hl hi hturn hremove hdrop
  refine ⟨(staysInTick_act s htick).tick.trans hnow, not_ready_act hl hi habsent a, ?_⟩
  cases hside with
  | same => exact ⟨st, hj⟩
  | postponed => exact ⟨st, by rw [hj, hnow]⟩
  | promoted wait => exact ⟨_, hj⟩
  | woken wait removal other removed => exact ⟨_, hj⟩
  | resumed tracked launch wait => exact ⟨_, hj⟩
  | set tracked sets alive => exact ⟨_, hj⟩

theorem spent_actAll (hl : s.level.Sound) (hs : s.level.Spent h i now) (htick : .tick ∉ acts)
    (hturn : .turn h ∉ acts) (hgone : ¬ Gone h acts) : (s.actAll acts).level.Spent h i now := by
  induction acts generalizing s with
  | nil => exact hs
  | cons a rest ih =>
    rw [Gone, List.mem_cons, List.mem_cons] at hgone
    rw [List.mem_cons, not_or] at htick hturn
    refine ih (sound_act hl a) (spent_act hl hs (Ne.symm htick.1) (Ne.symm hturn.1) ?_ ?_) htick.2
      hturn.2 fun hrest => hgone ?_
    · exact fun ha => hgone (.inl (.inl ha.symm))
    · exact fun ha => hgone (.inr (.inl ha.symm))
    · exact hrest.imp .inr .inr

/-- Who is put off gets the mark of the tick, and nothing else of it changes. -/
theorem spent_postpone {sets : Status → Prop} (hl : s.level.Sound) (hq : s.Queued sets)
    (ha : Act.Proper sets s (.postpone h)) :
    ∃ i, s.level.instance? h = some i ∧
      (s.act (.postpone h)).level.instance? h = some { i with lastTick := s.level.tick } ∧
      (s.act (.postpone h)).level.Spent h i s.level.tick := by
  obtain ⟨rest, hr⟩ := ha
  obtain ⟨i, hi, -⟩ := hq.live h (hr ▸ List.mem_cons_self)
  have hmarked : (s.act (.postpone h)).level.instance? h =
      some { i with lastTick := s.level.tick } := by
    show (s.level.roster.modify h _).instance? h = _
    rw [Roster.instance?_modify hl.roster, if_pos rfl, show s.level.roster.instance? h = some i
      from hi]
    rfl
  refine ⟨i, hi, hmarked, rfl, ?_, i.status, hmarked⟩
  have hnodup := hq.nodup
  show h ∉ s.level.ready.tail
  rw [hr] at hnodup ⊢
  exact (List.nodup_cons.mp hnodup).1

theorem tick_not_mem {sets : Status → Prop} (hproper : s.Proper sets acts) : .tick ∉ acts := by
  induction acts generalizing s with
  | nil => exact List.not_mem_nil
  | cons a rest ih =>
    rw [List.mem_cons, not_or]
    exact ⟨hproper.1.ne_tick.symm, ih hproper.2⟩

/-- Where all turns are first turns, only who is in the queue takes one. -/
theorem skips_of_firstTurns {xs ys : List Act} (hfirst : s.FirstTurns (xs ++ ys))
    (hbefore : ∀ front, xs ≠ front ++ [.takeReady]) (hl : (s.actAll xs).level.Sound)
    (hs : (s.actAll xs).level.Spent h i now) (htick : .tick ∉ ys) : Skips h ys := by
  refine skips_of_first fun us vs heq hus => ?_
  by_contra hgone
  obtain ⟨front, rest, hfront, hready⟩ := hfirst (xs ++ us) h vs (by rw [heq, List.append_assoc])
  rcases us.eq_nil_or_concat with rfl | ⟨us, b, rfl⟩
  · exact hbefore front (by simpa using hfront)
  · rw [List.concat_eq_append, ← List.append_assoc] at hfront
    obtain ⟨rfl, -⟩ := List.append_inj' hfront rfl
    rw [List.concat_eq_append] at heq hus hgone
    have hquiet : .tick ∉ us := fun hmem => htick (by simp [heq, hmem])
    have hturn : .turn h ∉ us := fun hmem => hus (List.mem_append_left _ hmem)
    have hkept := spent_actAll hl hs hquiet hturn fun hg => hgone (gone_append.mpr (.inl hg))
    rw [← actAll_append] at hkept
    exact hkept.absent (hready ▸ List.mem_cons_self)

/-- In a tick, who has its mark is not due. -/
theorem skips_of_round {sets : Status → Prop} (hl : s.level.Sound) (hround : s.AllInRound acts)
    (hproper : s.Proper sets acts) (hs : s.level.Spent h i now) (hnow : now ≠ 0) :
    Skips h acts := by
  refine skips_of_first fun us vs heq hus => ?_
  by_contra hgone
  subst heq
  have htick : .tick ∉ us := tick_not_mem ((proper_append _ _).mp hproper).1
  obtain ⟨hsame, -, st, hi⟩ := spent_actAll hl hs htick hus hgone
  obtain ⟨j, hj, hdue⟩ := ((allInRound_append _ _).mp hround).2.1
  obtain rfl := Option.some.inj (hi.symm.trans hj)
  simp [isDue, hsame, hnow] at hdue

/-- Only who has ended is removed. -/
theorem ended_of_removed {sets : Status → Prop} (hproper : s.Proper sets acts)
    {t : Simulation ω} (hm : (t, .remove h) ∈ s.moments acts) {j : Instance}
    (hj : t.level.instance? h = some j) : j.status.isTerminal = true := by
  induction acts generalizing s with
  | nil => cases hm
  | cons a rest ih =>
    rcases List.mem_cons.mp hm with heq | hm
    · obtain ⟨rfl, rfl⟩ := Prod.mk.inj heq
      exact hproper.1.2 j hj
    · exact ih hproper.2 hm

theorem map_snd_moments (s : Simulation ω) (acts : List Act) :
    (s.moments acts).map Prod.snd = acts := by
  induction acts generalizing s with
  | nil => rfl
  | cons a rest ih => exact congrArg (a :: ·) (ih (s.act a))

/-- In the next tick, the instance takes a turn unless it has ended and is removed before. -/
def TurnOrEnd (s : Simulation ω) (h : Handle) (acts : List Act) : Prop :=
  ∃ us a vs, acts = .tick :: (us ++ a :: vs) ∧ .turn h ∉ us ∧ .remove h ∉ us ∧
    (a = .turn h ∨ a = .remove h ∧
      ∃ j, (s.actAll (.tick :: us)).level.instance? h = some j ∧ j.status.isTerminal = true)

theorem turnOrEnd_of_spent (hl : s.level.AtRest) (hrole : s.level.isReplica = false)
    (hs : s.level.Spent h i now) : s.TurnOrEnd h s.tickActs := by
  obtain ⟨hnow, habsent, st, hi⟩ := hs
  have hlast : now ≠ s.level.tick + 1 := Level.Recent.ne_succ (.inl hnow.symm)
  obtain ⟨us, a, vs, hacts, ha, hturn, hremove⟩ := turn_or_remove hl hrole hi hlast
  refine ⟨us, a, vs, hacts, hturn, hremove, ha.imp_right fun ha => ⟨ha, ?_⟩⟩
  have hl' := sound_act hl.sound .tick
  have hproper : (s.act .tick).Proper (fun _ => True) _ :=
    proper_passActs closed_true maxFirstTurns hl' hl.quiet (s.act .tick).dueHandles
  have hround := allInRound_passActs maxFirstTurns (s.act .tick) (s.act .tick).dueHandles
  rw [tickActs, if_neg (by simp [hrole]), List.cons.injEq] at hacts
  rw [hacts.2, proper_append] at hproper
  rw [hacts.2, allInRound_append] at hround
  obtain ⟨j, hj, -⟩ := waits_on hl' hround.1 hproper.1 hi habsent hturn hremove
  subst ha
  exact ⟨j, hj, hproper.2.1.2 j hj⟩

end Simulation

/-! ## Until the next tick -/

namespace Occasion

variable {ω : Type} [Host ω] {l : Level} {h : Handle} {i : Instance} {now : UInt64}

open Simulation

/-- What happens to an instance that is put off, in all that follows until the level `l`: it takes
no turn before it is gone, it is removed only if it has ended, and unless it is gone it is still as
it was but for its status, and takes a turn in the next tick. -/
structure AwaitsTick (h : Handle) (i : Instance) (now : UInt64) (l : Level)
    (later : List (Simulation ω × Act)) : Prop where
  skips : Skips h (later.map Prod.snd)
  ended : ∀ t j, (t, .remove h) ∈ later → t.level.instance? h = some j →
    j.status.isTerminal = true
  kept : ¬ Gone h (later.map Prod.snd) →
    ∃ st, l.instance? h = some { i with status := st, lastTick := now }
  next : ¬ Gone h (later.map Prod.snd) → ∀ final : Occasion ω, final.op = .tick →
    (final.enter l).TurnOrEnd h (final.op.acts (final.enter l))

theorem atRest_applyAll (hl : l.AtRest) (os : List (Occasion ω)) : (applyAll l os).AtRest := by
  induction os generalizing l with
  | nil => exact hl
  | cons o rest ih => exact ih (hl.run (s := o.enter l) o.op)

theorem isReplica_applyAll (l : Level) (os : List (Occasion ω)) :
    (applyAll l os).isReplica = l.isReplica := by
  induction os generalizing l with
  | nil => rfl
  | cons o rest ih =>
    have hstays := stays_actAll (o.enter l) (o.op.acts (o.enter l))
    rw [← o.op.run_eq_acts] at hstays
    exact (ih (o.apply l)).trans (isReplica_congr hstays)

/-- Until the next tick, who has the mark of this one takes no turn. -/
theorem spent_between {between : List (Occasion ω)} (hbetween : ∀ o ∈ between, o.op ≠ .tick)
    (hl : l.AtRest) (hs : l.Spent h i now) :
    Skips h ((moments l between).map Prod.snd) ∧
      (¬ Gone h ((moments l between).map Prod.snd) → (applyAll l between).Spent h i now) := by
  induction between generalizing l with
  | nil => exact ⟨fun us vs heq => (by simp [moments] at heq), fun _ => hs⟩
  | cons o rest ih =>
    obtain ⟨hop, hrest⟩ := List.forall_mem_cons.mp hbetween
    rw [moments, List.map_append, map_snd_moments]
    have hproper := o.op.proper_acts (s := o.enter l) closed_true hl hop o.op.sets_any
    have htick := tick_not_mem hproper
    have hskips : Skips h (o.op.acts (o.enter l)) := by
      have hfirst : (o.enter l).FirstTurns ([] ++ o.op.acts (o.enter l)) :=
        Operation.firstTurns_acts (o.enter l) hop
      exact skips_of_firstTurns hfirst (by simp) hl.sound hs htick
    have hkept (hgone : ¬ Gone h (o.op.acts (o.enter l))) : (o.apply l).Spent h i now := by
      have hafter := spent_actAll (s := o.enter l) hl.sound hs htick (hskips.not_mem hgone) hgone
      rwa [← o.op.run_eq_acts] at hafter
    have hl' : (o.apply l).AtRest := hl.run (s := o.enter l) o.op
    refine ⟨hskips.append fun hgone => (ih hrest hl' (hkept hgone)).1, fun hgone => ?_⟩
    rw [gone_append, not_or] at hgone
    exact (ih hrest hl' (hkept hgone.1)).2 hgone.2

theorem ended_between {between : List (Occasion ω)} (hbetween : ∀ o ∈ between, o.op ≠ .tick)
    (hl : l.AtRest) {t : Simulation ω} (hm : (t, .remove h) ∈ moments l between) {j : Instance}
    (hj : t.level.instance? h = some j) : j.status.isTerminal = true := by
  induction between generalizing l with
  | nil => cases hm
  | cons o rest ih =>
    obtain ⟨hop, hrest⟩ := List.forall_mem_cons.mp hbetween
    rcases List.mem_append.mp hm with hm | hm
    · have hproper := o.op.proper_acts (s := o.enter l) closed_true hl hop o.op.sets_any
      exact ended_of_removed hproper hm hj
    · exact ih hrest (hl.run (s := o.enter l) o.op) hm

end Occasion

/-! ## Settling -/

namespace Operation

variable {ω : Type} [Host ω] {s : Simulation ω} {op : Operation} {h : Handle} {xs ys : List Act}

open Simulation

/-- A side that only replays effects does not settle anything. -/
theorem isReplica_of_not_makes {a : Act} (ha : a ∈ op.acts s) (hmakes : ¬ op.Makes a) :
    s.level.isReplica = false := by
  by_contra hr
  rw [Bool.not_eq_false] at hr
  cases op with
  | begin => simp [acts, beginActs, hr] at ha
  | launch p => simp [acts, hr] at ha
  | request q => simp [acts, hr] at ha
  | startKind kind activator always => simp [acts, startKindActs, hr] at ha
  | tick => simp [acts, tickActs, hr] at ha
  | putFirst which =>
    obtain ⟨k, -, rfl⟩ : ∃ k, _ ∧ Act.putFirst k = a := by simpa [acts] using ha
    exact hmakes ⟨k, rfl⟩
  | putLast which =>
    obtain ⟨k, -, rfl⟩ : ∃ k, _ ∧ Act.putLast k = a := by simpa [acts] using ha
    exact hmakes ⟨k, rfl⟩
  | setStatus script status => exact hmakes (List.mem_singleton.mp ha)
  | setVar index value => exact hmakes (List.mem_singleton.mp ha)
  | setElement array index value => exact hmakes (List.mem_singleton.mp ha)
  | terminateAll => exact hmakes (List.mem_singleton.mp ha)

/-- In the rest of its operation, who is put off takes no turn. -/
theorem skips_of_postpone {i : Instance} {now : UInt64} (hl : s.level.AtRest)
    (hcount : op = .tick → s.level.tick + 1 ≠ 0) (hacts : op.acts s = xs ++ .postpone h :: ys)
    (hproper : ((s.actAll xs).act (.postpone h)).Proper (fun _ => True) ys)
    (hs : ((s.actAll xs).act (.postpone h)).level.Spent h i now) : Skips h ys := by
  have hl' : ((s.actAll xs).act (.postpone h)).level.Sound :=
    sound_act (sound_actAll hl.sound xs) _
  by_cases hop : op = .tick
  · subst hop
    have htick : s.tickActs = xs ++ .postpone h :: ys := hacts
    unfold tickActs at htick
    split at htick
    · exact absurd htick.symm (by simp)
    · cases xs with
      | nil => cases (List.cons.inj htick).1
      | cons b xs =>
        rw [List.cons_append, List.cons.injEq] at htick
        obtain ⟨rfl, hpass⟩ := htick
        have hround := allInRound_passActs maxFirstTurns (s.act .tick) (s.act .tick).dueHandles
        have hall : (s.act .tick).Proper (fun _ => True) _ :=
          proper_passActs closed_true maxFirstTurns (sound_act hl.sound .tick) hl.quiet
            (s.act .tick).dueHandles
        rw [hpass, allInRound_append] at hround
        rw [hpass, proper_append] at hall
        have hnow : now = s.level.tick + 1 := by
          rw [← hs.tick, (staysInTick_act _ (by simp : Act.postpone h ≠ .tick)).tick, actAll_cons,
            tick_of_proper hall.1]
          rfl
        exact skips_of_round hl' hround.2.2 hproper hs (hnow ▸ hcount rfl)
  · have hfirst : s.FirstTurns ((xs ++ [.postpone h]) ++ ys) := by
      rw [List.append_assoc, List.singleton_append, ← hacts]
      exact firstTurns_acts s hop
    have hafter : s.actAll (xs ++ [.postpone h]) = (s.actAll xs).act (.postpone h) := by
      rw [actAll_append]
      rfl
    refine skips_of_firstTurns hfirst (fun front heq => ?_) (hafter ▸ hl') (hafter ▸ hs)
      (tick_not_mem hproper)
    cases (List.append_inj' heq rfl).2

/-- Who is put off waits for the next tick. -/
theorem awaitsTick_of_postpone (hl : s.level.AtRest) (hcount : op = .tick → s.level.tick + 1 ≠ 0)
    (hacts : op.acts s = xs ++ .postpone h :: ys) :
    ∃ i, (s.actAll xs).level.instance? h = some i ∧
      ((s.actAll xs).act (.postpone h)).level.instance? h =
        some { i with lastTick := (s.actAll xs).level.tick } ∧
      ∀ between : List (Occasion ω), (∀ o ∈ between, o.op ≠ .tick) →
        Occasion.AwaitsTick h i (s.actAll xs).level.tick
          (Occasion.applyAll (op.run s).2.level between)
          (((s.actAll xs).act (.postpone h)).moments ys ++
            Occasion.moments (op.run s).2.level between) := by
  obtain ⟨hq, hpostpone, hproper⟩ := proper_within closed_true hl op.sets_any hacts (by simp)
  obtain ⟨i, hi, hmarked, hspent⟩ :=
    spent_postpone (sound_actAll hl.sound xs) hq hpostpone
  have hl' : ((s.actAll xs).act (.postpone h)).level.Sound :=
    sound_act (sound_actAll hl.sound xs) _
  have hskips := skips_of_postpone hl hcount hacts hproper hspent
  have hrest := hl.run op
  have hrole : (op.run s).2.level.isReplica = false := by
    have hstays := stays_actAll s (op.acts s)
    rw [← op.run_eq_acts] at hstays
    rw [isReplica_congr hstays]
    have hmem : .postpone h ∈ op.acts s := hacts ▸ List.mem_append_right _ List.mem_cons_self
    refine isReplica_of_not_makes hmem fun hmakes => ?_
    have hunqueues := hmakes.unqueues (by
      rintro rfl
      cases hmakes)
    cases hunqueues
  have hkept (hgone : ¬ Gone h ys) : (op.run s).2.level.Spent h i (s.actAll xs).level.tick := by
    have hafter := spent_actAll hl' hspent (tick_not_mem hproper) (hskips.not_mem hgone) hgone
    rwa [← actAll_cons, ← actAll_append, ← hacts, ← op.run_eq_acts] at hafter
  refine ⟨i, hi, hmarked, fun between hbetween => ?_⟩
  have hend (hgone : ¬ Gone h ((((s.actAll xs).act (.postpone h)).moments ys ++
      Occasion.moments (op.run s).2.level between).map Prod.snd)) :
      (Occasion.applyAll (op.run s).2.level between).Spent h i (s.actAll xs).level.tick := by
    rw [List.map_append, map_snd_moments, gone_append, not_or] at hgone
    exact (Occasion.spent_between hbetween hrest (hkept hgone.1)).2 hgone.2
  constructor
  · rw [List.map_append, map_snd_moments]
    exact hskips.append fun hgone => (Occasion.spent_between hbetween hrest (hkept hgone)).1
  · intro t j hm hj
    rcases List.mem_append.mp hm with hm | hm
    · exact ended_of_removed hproper hm hj
    · exact Occasion.ended_between hbetween hrest hm hj
  · exact fun hgone => (hend hgone).inst
  · intro hgone final hfinal
    rw [hfinal]
    exact turnOrEnd_of_spent (s := final.enter _) (Occasion.atRest_applyAll hrest between)
      ((Occasion.isReplica_applyAll _ between).trans hrole) (hend hgone)

end Operation

open Simulation in
/-- **Settling ends and loses no start.** Whatever is in the queues, settling ends with both empty.
At most as many new instances take a first turn as are allowed, each at once when it is taken out
of the queue; and new instances leave the queue in the order in which they were started, those for
whom no first turn is left behind all others. In every operation on a level that calls lead to,
this holds of all first turns together; only the beginning of a level counts twice, with empty
queues in between. Whoever is taken out of the queue for a first turn takes it. Whoever is put off
keeps all but the mark of its last turn, takes no turn until the next tick, and takes one there,
unless it has ended and is removed before or all instances are dropped. -/
theorem settling_loses_no_start {ω : Type} [Host ω] :
    (∀ (left : Nat) (s : Simulation ω),
      (s.settle left).2 = s.actAll (s.settleActs left) ∧ (s.settle left).2.level.pending = [] ∧
      (s.settle left).2.level.ready = [] ∧ s.Capped left (s.settleActs left) (s.settle left).1 ∧
      s.Attends (s.settleActs left) ∧
      (s.level.Sound → s.gather served (s.settleActs left) ++ s.gather putOff (s.settleActs left) =
        s.level.ready ++ s.gather arrivals (s.settleActs left))) ∧
    ∀ {s : Simulation ω}, s.level.Reachable Level.Fresh (fun _ => True) → ∀ op : Operation,
      (op.run s).2 = s.actAll (op.acts s) ∧
      (∃ xs ys, op.acts s = xs ++ ys ∧ (op ≠ .begin → ys = []) ∧ (s.actAll xs).level.Quiet ∧
        s.Paced xs ∧ (s.actAll xs).Paced ys) ∧
      (∀ xs ys, op.acts s = xs ++ .takeReady :: ys →
        ∃ h tail zs, (s.actAll xs).level.ready = h :: tail ∧ ys = .turn h :: zs) ∧
      ((op = .tick → s.level.tick + 1 ≠ 0) → ∀ xs h ys, op.acts s = xs ++ .postpone h :: ys →
        ∃ i, (s.actAll xs).level.instance? h = some i ∧
          ((s.actAll xs).act (.postpone h)).level.instance? h =
            some { i with lastTick := (s.actAll xs).level.tick } ∧
          ∀ between : List (Occasion ω), (∀ o ∈ between, o.op ≠ .tick) →
            Occasion.AwaitsTick h i (s.actAll xs).level.tick
              (Occasion.applyAll (op.run s).2.level between)
              (((s.actAll xs).act (.postpone h)).moments ys ++
                Occasion.moments (op.run s).2.level between)) := by
  constructor
  · intro left s
    have hcap := capped_settleActs left s
    have hquiet := quiet_settle left s
    refine ⟨(actAll_settleActs left s).symm, hquiet.1, hquiet.2, hcap,
      attends_settleActs left s, ?_⟩
    intro hl
    have hlaw := queueLaw_settleActs left hl
    rwa [QueueLaw, Conserves, actAll_settleActs, hquiet.2, List.append_nil, hcap.order] at hlaw
  · intro s hs op
    have hl := hs.atRest
    exact ⟨op.run_eq_acts s, op.exists_paced hl, fun xs ys => Operation.turn_of_takeReady hl,
      fun hcount xs h ys => Operation.awaitsTick_of_postpone hl hcount⟩

/-! ## More starts than first turns -/

namespace Simulation

variable {ω : Type} [Host ω] {s : Simulation ω}

theorem length_arrivals_start (hl : s.level.Sound) {p : Launch} (halways : p.always = true)
    (hdefer : p.deferStart = false) (hfound : (s.level.program.findScript p.script).isSome = true) :
    (s.arrivals (.start p)).length = 1 := by
  obtain ⟨script, hscript⟩ := Option.isSome_iff_exists.mp hfound
  have henlist : s.act (.start p) = s.enlist script p := by
    show (s.start p).2 = _
    unfold start
    rw [hscript]
    simp [halways]
  rw [arrivals, Act.defers, hdefer, if_neg (by simp), henlist,
    Level.newcomers_add hl _ p.always (by rw [level_enlist]),
    List.length_singleton]

theorem length_arrivals_starts (hl : s.level.Sound) {launches : List Launch}
    (hlaunches : ∀ p ∈ launches, p.always = true ∧ p.deferStart = false ∧
      (s.level.program.findScript p.script).isSome = true) :
    (s.gather arrivals (launches.map .start)).length = launches.length := by
  induction launches generalizing s with
  | nil => rfl
  | cons p rest ih =>
    obtain ⟨⟨halways, hdefer, hfound⟩, hrest⟩ := List.forall_mem_cons.mp hlaunches
    have hprogram := (stays_act s (.start p)).program
    rw [List.map_cons, gather_cons, List.length_append, length_arrivals_start hl halways hdefer
      hfound, ih (sound_act hl _) (by rwa [hprogram]), List.length_cons, Nat.add_comm]

theorem postpone_of_putOff {acts : List Act} (hput : s.gather putOff acts ≠ []) :
    ∃ xs h ys, acts = xs ++ .postpone h :: ys := by
  obtain ⟨h, hh⟩ := List.exists_mem_of_ne_nil _ hput
  obtain ⟨m, hm, hmem⟩ := List.mem_flatMap.mp hh
  have hact : m.2 ∈ acts := by
    rw [← s.map_snd_moments acts]
    exact List.mem_map_of_mem hm
  have hpostpone : m.2 = .postpone h := by
    generalize m.2 = a at hmem
    cases a with
    | postpone k => rw [List.mem_singleton.mp hmem]
    | _ => cases hmem
  obtain ⟨xs, ys, heq⟩ := List.append_of_mem (hpostpone ▸ hact)
  exact ⟨xs, h, ys, heq⟩

end Simulation

namespace Crowded

open Simulation

/-- A program with so many opening scripts. -/
def program (count : Nat) : Program :=
  { (default : Program) with
    scripts := (List.range count).map fun n =>
      { (default : Script) with number := .ofNat (n + 1), typeTag := ScriptKind.opening.tag } }

def idle (count : Nat) : Simulation StillWorld :=
  ⟨.start (program count) 1 .standard, .empty, default, default⟩

def tick : Occasion StillWorld := ⟨.tick, .empty, default, default⟩

theorem length_scripts (count : Nat) : ((program count).scriptsOfKind .opening).length = count := by
  have hkind : ((program count).scripts.filter fun s => s.kind? == some .opening) =
      (program count).scripts := by
    refine List.filter_eq_self.mpr fun script hscript => ?_
    obtain ⟨n, -, rfl⟩ := List.mem_map.mp hscript
    show (ScriptKind.ofTag? ScriptKind.opening.tag == some .opening) = true
    decide
  rw [Program.scriptsOfKind, hkind, List.length_map, program, List.length_map, List.length_range]

theorem found_of_mem {count : Nat} {n : Int32} (hn : n ∈ (program count).scriptsOfKind .opening) :
    ((program count).findScript n).isSome = true := by
  obtain ⟨script, hscript, rfl⟩ := List.mem_map.mp hn
  exact List.find?_isSome.mpr ⟨script, List.mem_of_mem_filter hscript, beq_self_eq_true _⟩

theorem le_length_arrivals (count : Nat) :
    count ≤ ((idle count).gather arrivals
      (Operation.acts (idle count) (.startKind .opening none true))).length := by
  have hsound : (idle count).level.Sound := Level.sound_start (program count) 1 .standard
  have hstarts : ((idle count).gather arrivals
      (((idle count).kindLaunches .opening none true).map .start)).length =
      ((idle count).kindLaunches .opening none true).length := by
    refine length_arrivals_starts hsound fun p hp => ?_
    obtain ⟨n, hn, rfl⟩ := List.mem_map.mp hp
    exact ⟨rfl, rfl, found_of_mem hn⟩
  have hscripts : ((idle count).kindLaunches .opening none true).length = count := by
    rw [kindLaunches, List.length_map]
    exact length_scripts count
  have hrole : (idle count).level.isReplica = false := rfl
  rw [Operation.acts, startKindActs, if_neg (by simp [hrole]), gather_append, List.length_append,
    hstarts, hscripts]
  exact Nat.le_add_right _ _

/-- A level with one opening script more than first turns are allowed. -/
def crowded : Simulation StillWorld := idle (maxFirstTurns + 1)

def opening : Operation := .startKind .opening none true

/-- When all opening scripts are started, one of them is put off until the next tick. -/
theorem settling_loses_no_start_crowded :
    crowded.level.Reachable Level.Fresh (fun _ => True) ∧
    ∃ xs h ys i, opening.acts crowded = xs ++ Act.postpone h :: ys ∧
      (crowded.actAll xs).level.instance? h = some i ∧
      ((crowded.actAll xs).act (.postpone h)).level.instance? h =
        some { i with lastTick := (crowded.actAll xs).level.tick } ∧
      Skips h ys ∧ (¬ Gone h ys → (tick.enter (opening.run crowded).2.level).TurnOrEnd h
        (tick.op.acts (tick.enter (opening.run crowded).2.level))) := by
  have hcrowded : crowded.level.Reachable Level.Fresh fun _ => True :=
    .origin (.start (program (maxFirstTurns + 1)) 1 .standard)
  have harrivals : maxFirstTurns + 1 ≤ (crowded.gather arrivals (opening.acts crowded)).length :=
    le_length_arrivals (maxFirstTurns + 1)
  obtain ⟨-, ⟨us, vs, heq, hone, -, hpaced, -⟩, -, hlater⟩ :=
    settling_loses_no_start.2 hcrowded opening
  rw [hone (by simp [opening]), List.append_nil] at heq
  rw [heq, ← hpaced.order, List.length_append] at harrivals
  have hput : crowded.gather putOff us ≠ [] := by
    intro hnone
    have hcount := hpaced.count
    rw [hnone, List.length_nil] at harrivals
    omega
  obtain ⟨xs, h, ys, hus⟩ := postpone_of_putOff hput
  obtain ⟨i, hi, hmarked, hawaits⟩ := hlater (by simp [opening]) xs h ys (heq.trans hus)
  obtain ⟨hskips, -, -, hnext⟩ := hawaits [] (by simp)
  have hys : (((crowded.actAll xs).act (.postpone h)).moments ys ++
      Occasion.moments (opening.run crowded).2.level []).map Prod.snd = ys := by
    rw [Occasion.moments, List.append_nil, map_snd_moments]
  rw [hys] at hskips hnext
  -- A check by unfolding would run the operation to see that nothing follows it.
  rw [Occasion.applyAll] at hnext
  exact ⟨hcrowded, xs, h, ys, i, heq.trans hus, hi, hmarked, hskips, fun hgone =>
    hnext hgone tick rfl⟩

end Crowded

end LevelScript
