import LevelScript.Proofs.Level.Change

/-!
# What an act makes of an instance

An instance takes its turn, is put off or is removed. An act that does none of it leaves it as it
is, or changes its status. Apart from waits for scripts, the status is changed only of the tracked
instance of a script: a launch lets it run again if it is suspended, and its status can be set.

* `Level.Aside`: the changes there are besides turns.
* `Level.Step.fate`: what becomes of an instance. `Level.Step.origin`: the others are new.
* `Simulation.accounts_act`: every instance there is after an act is new or comes from one of them.
-/

namespace LevelScript

namespace Level

/-- What an act makes of an instance whose turn it is not. -/
inductive Aside (l : Level) (a : Act) (h : Handle) (i : Instance) : Instance → Prop
  | same : Aside l a h i i
  | postponed : Aside l a h i { i with lastTick := l.tick }
  /-- It waited for a script to start. -/
  | promoted {n : Int32} (wait : i.status = .scriptWaitPre n) :
      Aside l a h i { i with status := .scriptWait n }
  /-- It waited for the end of a script, of which an instance is removed. -/
  | woken {k : Handle} {r : Instance} (wait : i.status = .scriptWait r.number)
      (removal : a = .remove k) (other : k ≠ h) (removed : l.instance? k = some r) :
      Aside l a h i { i with status := .running }
  | resumed (tracked : l.find? i.number = some h) (launch : a.Launches l i.number)
      (wait : i.status = .suspended) : Aside l a h i { i with status := .running }
  | set {st : Status} (tracked : l.find? i.number = some h) (sets : a.SetsStatus l i.number st)
      (alive : i.status.isTerminal = false) : Aside l a h i { i with status := st }

/-- Every instance there is later is new, or an act made it of one there was. -/
def Accounts (l : Level) (a : Act) (l' : Level) : Prop :=
  ∀ h j, l'.instance? h = some j → a ≠ .turn h →
    (∃ i, l.instance? h = some i ∧ l.Aside a h i j) ∨ l.instance? h = none ∧ IsNew l.program j

variable {l l' : Level} {a : Act}

/-- What becomes of an instance that stays. -/
inductive Fate (l : Level) (a : Act) (h : Handle) (i : Instance) : Instance → Prop
  | turn {j : Instance} (act : a = .turn h) (turn : Simulation.TurnOf l i j) : Fate l a h i j
  | postpone (act : a = .postpone h) : Fate l a h i { i with lastTick := l.tick }
  | aside {j : Instance} (turn : a ≠ .turn h) (postpone : a ≠ .postpone h)
      (aside : l.Aside a h i j) (lastTick : j.lastTick = i.lastTick) : Fate l a h i j

theorem Fate.lastTick {h : Handle} {i j : Instance} (hf : l.Fate a h i j) :
    j.lastTick = if a = .turn h ∨ a = .postpone h then l.tick else i.lastTick := by
  cases hf with
  | turn act turn => rw [if_pos (.inl act), turn.lastTick]
  | postpone act => rw [if_pos (.inr act)]
  | aside hturn hpostpone _ lastTick => rw [if_neg (not_or.mpr ⟨hturn, hpostpone⟩), lastTick]

/-- It stays an instance of its script. -/
theorem Fate.script {h : Handle} {i j : Instance} (hf : l.Fate a h i j) :
    j.number = i.number ∧ j.typeTag = i.typeTag ∧ j.entry = i.entry := by
  cases hf with
  | turn act turn => exact ⟨turn.number, turn.typeTag, turn.entry⟩
  | postpone => exact ⟨rfl, rfl, rfl⟩
  | aside _ _ aside => cases aside <;> exact ⟨rfl, rfl, rfl⟩

theorem Aside.of_awaiting (l : Level) (a : Act) (h : Handle) (n : Int32) (i : Instance) :
    l.Aside a h i (awaiting n i) := by
  unfold awaiting Level.promoted
  split
  · rename_i hwait
    exact .promoted hwait
  · exact .same

/-- A new instance waits for nothing. -/
theorem settled_of_running {i : Instance} (h : i.status = .running) {n : Int32} {always : Bool} :
    settled n always i = i := by
  unfold settled
  split
  · rfl
  · show { i with status := promoted n i.status } = i
    rw [promoted, h, if_neg (by simp), ← h]

theorem Aside.of_woken {k h : Handle} {r : Instance} (hr : l.instance? k = some r) (hne : k ≠ h)
    (i : Instance) : l.Aside (.remove k) h i (Level.woken r.number i) := by
  unfold Level.woken
  split
  · rename_i hwait
    exact .woken hwait rfl hne hr
  · exact .same

theorem instance?_fst_add (hl : l.Sound) (i : Instance) (always : Bool) :
    l.instance? (l.add i always).1 = none := by
  rw [fst_add]
  exact Roster.instance?_fst_add hl.roster i

/-! ## One step -/

/-- An instance is removed, all are dropped, or it stays. -/
theorem Step.fate (hs : l.Step a l') (hl : l.Sound) {h : Handle} {i : Instance}
    (hi : l.instance? h = some i) :
    (∃ j, l'.instance? h = some j ∧ l.Fate a h i j) ∨
      l'.instance? h = none ∧ (a = .remove h ∨ a = .terminateAll) := by
  have hidle (hidle : a.mayIdle = true) {j : Instance} (haside : l.Aside a h i j)
      (hlast : j.lastTick = i.lastTick) : l.Fate a h i j := by
    refine .aside ?_ ?_ haside hlast
    all_goals
      rintro rfl
      cases hidle
  have hmodify {k : Handle} {f : Instance → Instance} (hself : h = k → l.Fate a h i (f i))
      (hother : h ≠ k → l.Fate a h i i) :
      ∃ j, (l.roster.modify k f).instance? h = some j ∧ l.Fate a h i j := by
    rw [Roster.instance?_modify hl.roster, show l.roster.instance? h = some i from hi]
    split
    · rename_i hk
      exact ⟨f i, rfl, hself hk⟩
    · rename_i hk
      exact ⟨i, rfl, hother hk⟩
  cases hs with
  | tick | takeRequest | takeReady | reap =>
    exact .inl ⟨i, hi, .aside (by simp) (by simp) .same rfl⟩
  | idle idle => exact .inl ⟨i, hi, hidle idle .same rfl⟩
  | set find inst alive sets =>
    refine .inl (hmodify (fun hk => ?_) fun _ => hidle sets.mayIdle .same rfl)
    subst hk
    obtain rfl := Option.some.inj (inst.symm.trans hi)
    obtain rfl := hl.number_of_find find inst
    exact hidle sets.mayIdle (.set find sets alive) rfl
  | resume find inst suspended launches =>
    refine .inl (hmodify (fun hk => ?_) fun _ => hidle launches.mayIdle .same rfl)
    subst hk
    obtain rfl := Option.some.inj (inst.symm.trans hi)
    obtain rfl := hl.number_of_find find inst
    exact hidle launches.mayIdle (.resumed find launches suspended) rfl
  | @add _ i₀ idle =>
    have hne : h ≠ (l.add i₀ a.startsBesides).1 := by
      rintro rfl
      cases (instance?_fst_add hl i₀ _).symm.trans hi
    refine .inl ⟨settled i₀.number a.startsBesides i, ?_, ?_⟩
    · show (l.add i₀ a.startsBesides).2.instance? h = _
      rw [instance?_add hl.roster, if_neg hne, hi]
      rfl
    · unfold settled
      split
      · exact hidle idle .same rfl
      · exact hidle idle (.of_awaiting _ _ _ _ i) rfl
  | turn inst turn turned =>
    refine .inl ?_
    show ∃ j, (Roster.modify _ _ _).instance? h = some j ∧ _
    rw [turned.roster]
    refine hmodify (fun hk => ?_) fun hk => .aside (by simp [Ne.symm hk]) (by simp) .same rfl
    subst hk
    obtain rfl := Option.some.inj (inst.symm.trans hi)
    exact .turn rfl turn
  | postpone =>
    exact .inl (hmodify (fun hk => .postpone (by rw [hk])) fun hk =>
      .aside (by simp) (by simp [Ne.symm hk]) .same rfl)
  | @remove k r inst =>
    rw [instance?_remove hl.roster inst]
    by_cases hk : h = k
    · exact .inr ⟨if_pos hk, .inl (by rw [hk])⟩
    · refine .inl ⟨woken r.number i, by rw [if_neg hk, hi]; rfl, ?_⟩
      refine .aside (by simp) (by simp) (.of_woken inst (Ne.symm hk) i) ?_
      unfold woken
      split <;> rfl
  | turnNobody none =>
    refine .inl ⟨i, hi, .aside ?_ (by simp) .same rfl⟩
    rintro ⟨⟩
    cases none.symm.trans hi
  | removeNobody => exact .inl ⟨i, hi, .aside (by simp) (by simp) .same rfl⟩
  | putFirst =>
    exact .inl ⟨i, ((Roster.sound_put hl.roster (.inl rfl)).2 h).trans hi,
      .aside (by simp) (by simp) .same rfl⟩
  | putLast =>
    exact .inl ⟨i, ((Roster.sound_put hl.roster (.inr rfl)).2 h).trans hi,
      .aside (by simp) (by simp) .same rfl⟩
  | terminateAll => exact .inr ⟨Roster.instance?_clear hl.roster h, .inr rfl⟩

/-- Nobody is new, and nobody comes into the queue; or the step adds an instance. -/
theorem Step.added (hs : l.Step a l') (hl : l.Sound) :
    ((∀ h, l.instance? h = none → l'.instance? h = none) ∧
      (l'.ready = l.ready ∨ a.unqueues = true ∧ l'.ready.Sublist l.ready)) ∨
    ∃ i, IsNew l.program i ∧ (a.startsBesides = false → l.find? i.number = none) ∧
      l' = { (l.add i a.startsBesides).2 with
        ready := if a.defers then l.ready else l.ready ++ [(l.add i a.startsBesides).1] } := by
  have hmodify {k : Handle} {f : Instance → Instance} (h : Handle) (hnone : l.instance? h = none) :
      (l.roster.modify k f).instance? h = none := by
    rw [Roster.instance?_modify hl.roster, show l.roster.instance? h = none from hnone]
    split <;> rfl
  cases hs with
  | takeReady => exact .inl ⟨fun _ h => h, .inr ⟨rfl, List.tail_sublist _⟩⟩
  | set | resume => exact .inl ⟨hmodify, .inl rfl⟩
  | add idle new free => exact .inr ⟨_, new, fun h => hl.find?_eq_none (free h), rfl⟩
  | turn inst turn turned =>
    refine .inl ⟨fun h hnone => ?_, .inl turned.ready⟩
    show (Roster.modify _ _ _).instance? h = none
    rw [turned.roster]
    exact hmodify h hnone
  | postpone => exact .inl ⟨hmodify, .inr ⟨rfl, List.tail_sublist _⟩⟩
  | remove inst =>
    refine .inl ⟨fun h hnone => ?_, .inl (by rw [remove_keeps])⟩
    rw [instance?_remove hl.roster inst, hnone]
    split <;> rfl
  | putFirst =>
    obtain ⟨-, hfind⟩ := Roster.sound_put hl.roster (.inl rfl)
    exact .inl ⟨fun h hnone => (hfind h).trans hnone, .inl rfl⟩
  | putLast =>
    obtain ⟨-, hfind⟩ := Roster.sound_put hl.roster (.inr rfl)
    exact .inl ⟨fun h hnone => (hfind h).trans hnone, .inl rfl⟩
  | terminateAll =>
    exact .inl ⟨fun h _ => Roster.instance?_clear hl.roster h, .inr ⟨rfl, List.nil_sublist _⟩⟩
  | _ => exact .inl ⟨fun _ h => h, .inl rfl⟩

theorem IsNew.running {program : Program} {i : Instance} (h : IsNew program i) :
    i.status = .running := by
  obtain ⟨script, _, _, _, _, _, -, rfl⟩ := h
  rfl

/-- Whoever is there was before, or is new. It then waits in the queue, unless its first turn is
left to the next tick. -/
theorem Step.origin (hs : l.Step a l') (hl : l.Sound) {h : Handle} {j : Instance}
    (hj : l'.instance? h = some j) :
    (∃ i, l.instance? h = some i ∧ l.Fate a h i j) ∨ l.instance? h = none ∧ IsNew l.program j ∧
      l'.ready = if a.defers then l.ready else l.ready ++ [h] := by
  cases hi : l.instance? h with
  | some i =>
    rcases hs.fate hl hi with ⟨j', hj', hfate⟩ | ⟨hnone, -⟩
    · obtain rfl := Option.some.inj (hj.symm.trans hj')
      exact .inl ⟨i, rfl, hfate⟩
    · cases hnone.symm.trans hj
  | none =>
    rcases hs.added hl with ⟨hold, -⟩ | ⟨i, hnew, -, rfl⟩
    · cases (hold h hi).symm.trans hj
    · replace hj : (l.add i a.startsBesides).2.instance? h = some j := hj
      rw [instance?_add hl.roster] at hj
      split at hj
      · rename_i hk
        obtain rfl := Option.some.inj hj
        rw [settled_of_running hnew.running, hk]
        exact .inr ⟨rfl, hnew, rfl⟩
      · rw [hi] at hj
        cases hj

/-- Whoever is due for a first turn was before, or is new. -/
theorem Step.ready (hs : l.Step a l') (hl : l.Sound) :
    l'.ready.Sublist l.ready ∨
      ∃ h, l'.ready = l.ready ++ [h] ∧ l.instance? h = none ∧ l'.instance? h ≠ none := by
  rcases hs.added hl with ⟨-, hready | ⟨-, hready⟩⟩ | ⟨i, -, -, rfl⟩
  · exact .inl (hready ▸ List.Sublist.refl _)
  · exact .inl hready
  · by_cases hdefers : a.defers = true
    · exact .inl (by simp [hdefers])
    · refine .inr ⟨_, if_neg hdefers, instance?_fst_add hl i _, ?_⟩
      show (l.add i a.startsBesides).2.instance? _ ≠ none
      rw [instance?_add hl.roster, if_pos rfl]
      simp

/-- Nobody who is there comes into the queue again. -/
theorem Step.ready_of_old (hs : l.Step a l') (hl : l.Sound) {h : Handle} {i : Instance}
    (hi : l.instance? h = some i) (hh : h ∈ l'.ready) : h ∈ l.ready := by
  rcases hs.ready hl with hsub | ⟨k, heq, hnone, -⟩
  · exact hsub.subset hh
  · rw [heq] at hh
    refine (List.mem_append.mp hh).resolve_right fun hk => ?_
    rw [List.mem_singleton.mp hk, hnone] at hi
    cases hi

theorem Step.ready_subset (hs : l.Step a l') (hl : l.Sound) (ha : a.unqueues = false) :
    l.ready ⊆ l'.ready := by
  rcases hs.added hl with ⟨-, hready | ⟨hun, -⟩⟩ | ⟨i, -, -, rfl⟩
  · rw [hready]
    exact List.Subset.refl _
  · cases ha.symm.trans hun
  · show l.ready ⊆ if a.defers then l.ready else _
    split
    · exact List.Subset.refl _
    · exact List.subset_append_left _ _

/-- Only a turn raises requests. -/
theorem Step.pending (hs : l.Step a l') (hturn : a.isTurn = false) :
    l'.pending = l.pending ∨ a = .takeRequest ∧ l'.pending = l.pending.tail ∨
      a = .terminateAll ∧ l'.pending = [] := by
  cases hs with
  | takeRequest => exact .inr (.inl ⟨rfl, rfl⟩)
  | terminateAll => exact .inr (.inr ⟨rfl, rfl⟩)
  | add => exact .inl (pending_add ..)
  | turn => cases hturn
  | remove => exact .inl (by rw [remove_keeps])
  | _ => exact .inl rfl

/-- Every instance there is after a step is new, has had its turn, or was changed as `Aside`
says. -/
theorem Step.accounts (hs : l.Step a l') (hl : l.Sound) : l.Accounts a l' := by
  intro h j hj hturn
  rcases hs.origin hl hj with ⟨i, hi, hfate⟩ | ⟨hnone, hnew, -⟩
  · refine .inl ⟨i, hi, ?_⟩
    cases hfate with
    | turn act => exact absurd act hturn
    | postpone => exact .postponed
    | aside _ _ aside => exact aside
  · exact .inr ⟨hnone, hnew⟩

end Level

namespace Simulation

/-- An instance that is gone stays gone when others are removed. -/
theorem instance?_remove_eq_none {ω : Type} {s : Simulation ω} (hl : s.level.Sound) {x : Handle}
    (h : Handle) (hx : x = h ∨ s.level.instance? x = none) :
    (s.remove h).level.instance? x = none := by
  rw [level_remove]
  cases hi : s.level.instance? h with
  | none =>
    rw [Level.remove_of_none hi]
    exact hx.elim (fun hx => hx ▸ hi) id
  | some i =>
    rw [Level.instance?_remove hl.roster hi]
    split
    · rfl
    · rename_i hne
      rw [hx.resolve_left hne]
      rfl

variable {ω : Type} [Host ω] {s : Simulation ω} {h : Handle} {i : Instance} {a : Act}

theorem accounts_act (hl : s.level.Sound) (a : Act) : s.level.Accounts a (s.act a).level :=
  (step_act s a).accounts hl

/-- An instance stays under its handle unless it is removed or all are dropped. -/
theorem exists_fate (hl : s.level.Sound) (hi : s.level.instance? h = some i)
    (hremove : a ≠ .remove h) (hdrop : a ≠ .terminateAll) :
    ∃ j, (s.act a).level.instance? h = some j ∧ s.level.Fate a h i j :=
  ((step_act s a).fate hl hi).resolve_right fun hgone => hgone.2.elim hremove hdrop

end Simulation

end LevelScript
