import LevelScript.Proofs.Level.Advances
import LevelScript.Proofs.Level.Endings

/-!
# Removing what has ended

An instance that ends in its turn is removed right after it. One that is ended from outside stays
where it is, and the level keeps a mark that it has something to remove; the next call that
settles does so. The mark is not part of a snapshot.

* `Level.Remembers`: where something has ended, the level bears the mark.
* `Simulation.Owes`: the same within a tick, apart from instances whose turn is still to come.
* `noneEnded_run`: after a call that settles, nothing is there that has ended.
* `ended_removed_by_next_call`: whatever has ended is removed by the next such call.
-/

namespace LevelScript

namespace Level

/-- Nothing is there that has ended. -/
def NoneEnded (l : Level) : Prop :=
  ∀ h i, l.instance? h = some i → i.status.isTerminal = false

/-- If something is there that has ended, the level bears the mark of it. -/
def Remembers (l : Level) : Prop := l.reapPending = true ∨ l.NoneEnded

end Level

/-! ## What ends an instance -/

namespace Simulation

variable {ω : Type} [Host ω] {s : Simulation ω} {h : Handle} {i j : Instance} {a : Act}

/-- The mark stays until all that has ended is about to be removed. -/
theorem reapPending_act (hmark : s.level.reapPending = true) (ha : a ≠ .reap) :
    (s.act a).level.reapPending = true := by
  have hs := step_act s a
  generalize (s.act a).level = l' at hs ⊢
  cases hs with
  | reap => exact absurd rfl ha
  | set => simp [hmark]
  | add =>
    rw [Level.add_frame]
    exact hmark
  | turn _ _ turned => exact turned.reapPending.trans hmark
  | remove =>
    rw [Level.remove_keeps]
    exact hmark
  | _ => exact hmark

/-- An act that sets a status does nothing else, if it does anything. -/
theorem level_of_setsStatus {n : Int32} {st : Status} (hsets : a.SetsStatus s.level n st) :
    (s.act a).level = (s.level.setStatus n st).2 ∨ (s.act a).level = s.level := by
  have hroute (r : Request) (hhere : s.level.IsHere r.map) :
      (s.act (.route r)).level = (s.actOn r).2.level := by
    show (s.route r).2.level = _
    rw [route, if_neg fun hmap => hhere.elim hmap.1 hmap.2]
  cases hsets with
  | set => exact .inl rfl
  | suspend here => exact .inl (hroute (.suspend _ n) here)
  | terminate here => exact .inl (hroute (.terminate _ n) here)
  | deferredSuspend script action | deferredTerminate script action =>
    subst script
    show (s.deliver _).level = _ ∨ (s.deliver _).level = _
    unfold deliver
    split
    · exact .inr rfl
    · rw [action]
      exact .inl rfl

/-- Besides its turns, an instance ends only where the level is marked for it. -/
theorem ended_before (hl : s.level.Sound) (ha : a ≠ .turn h)
    (hj : (s.act a).level.instance? h = some j) (hend : j.status.isTerminal = true) :
    (s.act a).level.reapPending = true ∨
      ∃ i, s.level.instance? h = some i ∧ i.status.isTerminal = true := by
  rcases accounts_act hl a h j hj ha with ⟨i, hi, hside⟩ | ⟨-, hnew⟩
  · cases hside with
    | same => exact .inr ⟨j, hi, hend⟩
    | postponed => exact .inr ⟨i, hi, hend⟩
    | promoted => cases hend
    | woken => cases hend
    | resumed => cases hend
    | @set st tracked sets alive =>
      rcases level_of_setsStatus sets with hlevel | hlevel
      · left
        rcases s.level.setStatus_eq i.number st with heq | ⟨_, _, -, -, -, heq⟩
        · -- Nothing was set, but the instance was alive before.
          rw [hlevel, heq, hi] at hj
          rw [Option.some.inj hj] at alive
          exact absurd hend (by rw [alive]; simp)
        · rw [hlevel, heq]
          exact Bool.or_eq_true_iff.mpr (.inr hend)
      · rw [hlevel] at hj
        exact .inr ⟨_, hj, hend⟩
  · obtain ⟨script, leastLocals, args, activator, line, side, -, rfl⟩ := hnew
    cases hend

/-- An act that gives no turn and removes nothing keeps the mark in step. -/
theorem remembers_act (hl : s.level.Sound) (hturn : a.isTurn = false) (hreap : a ≠ .reap)
    (hs : s.level.Remembers) : (s.act a).level.Remembers := by
  rcases hs with hmark | hnone
  · exact .inl (reapPending_act hmark hreap)
  · by_cases hmark : (s.act a).level.reapPending = true
    · exact .inl hmark
    · refine .inr fun h j hj => ?_
      by_contra hend
      rw [Bool.not_eq_false] at hend
      have ha : a ≠ .turn h := by
        rintro rfl
        cases hturn
      obtain ⟨i, hi, hi'⟩ := (ended_before hl ha hj hend).resolve_left hmark
      exact absurd hi' (by rw [hnone h i hi]; simp)

theorem remembers_actAll {acts : List Act} (hl : s.level.Sound)
    (hacts : ∀ a ∈ acts, a.isTurn = false ∧ a ≠ .reap) (hs : s.level.Remembers) :
    (s.actAll acts).level.Remembers := by
  induction acts generalizing s with
  | nil => exact hs
  | cons a rest ih =>
    obtain ⟨⟨hturn, hreap⟩, hrest⟩ := List.forall_mem_cons.mp hacts
    exact ih (sound_act hl a) hrest (remembers_act hl hturn hreap hs)

/-! ## Within a call -/

omit [Host ω] in
/-- Only instances in a list have ended, whose turn is still to come. -/
def Spares (s : Simulation ω) (rest : List Handle) : Prop :=
  ∀ h i, s.level.instance? h = some i → i.status.isTerminal = true →
    h ∈ rest ∧ h ∉ s.level.ready ∧ s.isDue i = true

omit [Host ω] in
/-- Apart from those in a list, something has ended only if the level is marked. -/
def Owes (s : Simulation ω) (rest : List Handle) : Prop :=
  s.level.reapPending = true ∨ s.Spares rest

variable {rest : List Handle}

omit [Host ω] in
theorem spares_nil_iff : s.Spares [] ↔ s.level.NoneEnded := by
  constructor
  · intro hs h i hi
    by_contra hend
    rw [Bool.not_eq_false] at hend
    exact absurd (hs h i hi hend).1 List.not_mem_nil
  · intro hs h i hi hend
    exact absurd hend (by rw [hs h i hi]; simp)

omit [Host ω] in
theorem Owes.cons (hs : s.Owes rest) (h : Handle) : s.Owes (h :: rest) :=
  hs.imp_right fun hs k i hi hend =>
    ⟨List.mem_cons_of_mem h (hs k i hi hend).1, (hs k i hi hend).2⟩

omit [Host ω] in
theorem owes_nil_iff : s.Owes [] ↔ s.level.Remembers := or_congr_right spares_nil_iff

theorem reapPending_actAll {acts : List Act} (hmark : s.level.reapPending = true)
    (hacts : ∀ a ∈ acts, a ≠ .reap) : (s.actAll acts).level.reapPending = true := by
  induction acts generalizing s with
  | nil => exact hmark
  | cons a acts ih =>
    obtain ⟨ha, hrest⟩ := List.forall_mem_cons.mp hacts
    exact ih (reapPending_act hmark ha) hrest

section Call

variable (hl : s.level.Sound)

include hl

/-- What an act of a round leaves of an instance that is due and not new. -/
theorem due_act (hround : s.InRound a)
    (hqueue : ∀ k, a = .postpone k → k ∈ s.level.ready) (hi : s.level.instance? h = some i)
    (hready : h ∉ s.level.ready) (hdue : s.isDue i = true) (hturn : a ≠ .turn h)
    (hj : (s.act a).level.instance? h = some j) :
    h ∉ (s.act a).level.ready ∧ (s.act a).isDue j = true := by
  have hremove : a ≠ .remove h := by
    rintro rfl
    have hnone : (s.remove h).level.instance? h = none := instance?_remove_eq_none hl h (.inl rfl)
    exact absurd (hnone.symm.trans hj) (by simp)
  have hpostpone : a ≠ .postpone h := fun ha => hready (hqueue h ha)
  have htick : a ≠ .tick := by
    rintro rfl
    exact hround
  obtain ⟨⟨j', hj', hlast⟩, hready'⟩ := lastTick_act hl hround hi hremove
  obtain rfl := Option.some.inj (hj.symm.trans hj')
  rw [if_neg (not_or.mpr ⟨hturn, hpostpone⟩)] at hlast
  refine ⟨mt hready' hready, ?_⟩
  rw [isDue, hlast, (staysInTick_act s htick).tick]
  exact hdue

theorem owes_act (hround : s.InRound a)
    (hqueue : ∀ k, a = .postpone k → k ∈ s.level.ready) (hturn : a.isTurn = false)
    (hreap : a ≠ .reap) (hs : s.Owes rest) : (s.act a).Owes rest := by
  rcases hs with hmark | hs
  · exact .inl (reapPending_act hmark hreap)
  · by_cases hmark : (s.act a).level.reapPending = true
    · exact .inl hmark
    · refine .inr fun h j hj hend => ?_
      have ha : a ≠ .turn h := by
        rintro rfl
        cases hturn
      obtain ⟨i, hi, hi'⟩ := (ended_before hl ha hj hend).resolve_left hmark
      obtain ⟨hmem, hready, hdue⟩ := hs h i hi hi'
      exact ⟨hmem, due_act hl hround hqueue hi hready hdue ha hj⟩

/-- A turn leaves the others as they are. -/
theorem spares_of_turn (hi : s.level.instance? h = some i)
    (hs : s.Spares (h :: rest)) {k : Handle} (hk : k ≠ h)
    (hj : (s.act (.turn h)).level.instance? k = some j) (hend : j.status.isTerminal = true) :
    k ∈ rest ∧ k ∉ (s.act (.turn h)).level.ready ∧ (s.act (.turn h)).isDue j = true := by
  have hj' : (s.turn h).level.instance? k = some j := hj
  rw [instance?_turn hl hi, if_neg hk] at hj'
  obtain ⟨hmem, hready, hdue⟩ := hs k j hj' hend
  have htick : (s.act (.turn h)).level.tick = s.level.tick := (staysInTick_act s (by simp)).tick
  refine ⟨(List.mem_cons.mp hmem).resolve_left hk, ?_, ?_⟩
  · exact fun hready' => hready (ready_turn s h ▸ hready')
  · rwa [isDue, htick]

theorem spares_turn (hi : s.level.instance? h = some i)
    (halive : ¬ (s.advance i).1.status.isTerminal = true) (hs : s.Spares (h :: rest)) :
    (s.act (.turn h)).Spares rest := by
  intro k j hj hend
  by_cases hk : k = h
  · subst hk
    have hj' : (s.turn k).level.instance? k = some j := hj
    rw [instance?_turn hl hi, if_pos rfl] at hj'
    rw [Option.some.inj hj'] at halive
    exact absurd hend halive
  · exact spares_of_turn hl hi hs hk hj hend

theorem owes_turn_remove (hi : s.level.instance? h = some i)
    (hs : s.Spares (h :: rest)) : ((s.act (.turn h)).act (.remove h)).Owes rest := by
  have hl' := sound_act hl (.turn h)
  by_cases hmark : ((s.act (.turn h)).act (.remove h)).level.reapPending = true
  · exact .inl hmark
  · refine .inr fun k j hj hend => ?_
    have hk : k ≠ h := by
      rintro rfl
      have hnone : ((s.act (.turn k)).remove k).level.instance? k = none :=
        instance?_remove_eq_none hl' k (.inl rfl)
      cases hnone.symm.trans hj
    obtain ⟨j', hj', hend'⟩ := (ended_before hl' (by simp) hj hend).resolve_left hmark
    obtain ⟨hmem, hready, hdue⟩ := spares_of_turn hl hi hs hk hj' hend'
    exact ⟨hmem, due_act hl' trivial (by simp) hj' hready hdue (by simp) hj⟩

/-- An instance that has ended is removed in its visit. -/
theorem owes_visit (hs : s.Owes (h :: rest)) : (s.visit h).Owes rest := by
  rw [← actAll_visitActs]
  rcases hs with hmark | hs
  · refine .inl (reapPending_actAll hmark fun a ha => ?_)
    rcases mem_visitActs ha with rfl | rfl <;> simp
  · unfold visitActs
    cases hi : s.level.instance? h with
    | none =>
      refine .inr fun k j hj hend => ?_
      obtain ⟨hmem, hdue⟩ := hs k j hj hend
      refine ⟨(List.mem_cons.mp hmem).resolve_left ?_, hdue⟩
      rintro rfl
      cases hi.symm.trans hj
    | some i =>
      dsimp only
      split
      · split
        · exact owes_turn_remove hl hi hs
        · rename_i halive
          exact .inr (spares_turn hl hi halive hs)
      · rename_i hdue
        refine .inr fun k j hj hend => ?_
        obtain ⟨hmem, hready, hdue'⟩ := hs k j hj hend
        refine ⟨(List.mem_cons.mp hmem).resolve_left ?_, hready, hdue'⟩
        rintro rfl
        rw [Option.some.inj (hi.symm.trans hj)] at hdue
        exact hdue hdue'

theorem noneEnded_foldl_remove {handles : List Handle} (hmark : s.level.reapPending = false)
    (hall : ∀ h i, s.level.instance? h = some i → i.status.isTerminal = true → h ∈ handles) :
    (handles.foldl remove s).level.NoneEnded := by
  induction handles generalizing s with
  | nil =>
    intro h i hi
    by_contra hend
    exact absurd (hall h i hi (by simpa using hend)) List.not_mem_nil
  | cons k handles ih =>
    have hmark' : (s.act (.remove k)).level.reapPending = false := by
      rw [show s.act (.remove k) = s.remove k from rfl, level_remove, Level.remove_keeps]
      exact hmark
    refine ih (sound_act hl (.remove k)) hmark' fun h j hj hend => ?_
    obtain ⟨i, hi, hi'⟩ := (ended_before hl (a := .remove k) (by simp) hj hend).resolve_left
      (by rw [hmark']; simp)
    refine (List.mem_cons.mp (hall h i hi hi')).resolve_left ?_
    rintro rfl
    cases (instance?_remove_eq_none hl h (.inl rfl)).symm.trans hj

/-- If the level is marked, everything is removed that has ended. -/
theorem spares_reap (hs : s.Owes rest) : s.reap.Spares rest := by
  unfold reap
  split
  · have hall : ∀ h i, (s.act .reap).level.instance? h = some i → i.status.isTerminal = true →
        h ∈ s.level.roster.handlesWhere fun i => i.status.isTerminal := by
      intro h i hi hend
      have hmem := (Roster.mem_entries_iff hl.roster).mpr hi
      exact List.mem_map_of_mem (f := Prod.fst) (List.mem_filter.mpr ⟨hmem, hend⟩)
    have hnone := noneEnded_foldl_remove (sound_act hl .reap) rfl hall
    intro h i hi hend
    exact absurd hend (by rw [hnone h i hi]; simp)
  · rename_i hmark
    exact hs.resolve_left hmark

theorem spares_settle (left : Nat) (hs : s.Owes rest) :
    (s.settle left).2.Spares rest := by
  fun_induction settle left s with
  | case1 left s r tail hp _ ih =>
    have hl' := sound_act hl .takeRequest
    have hs' := owes_act hl (a := .takeRequest) trivial (by simp) rfl (by simp) hs
    exact ih (sound_act hl' (.route r))
      (owes_act hl' (a := .route r) trivial (by simp) rfl (by simp) hs')
  | case2 left s hp hr => exact spares_reap hl hs
  | case3 s hp h tail hr _ ih =>
    refine ih (sound_act hl (.postpone h))
      (owes_act hl (a := .postpone h) trivial ?_ rfl (by simp) hs)
    intro k hk
    rw [← Act.postpone.inj hk, hr]
    exact List.mem_cons_self
  | case4 s hp h tail hr left ih =>
    have hl' := sound_act hl .takeReady
    have hs' := owes_act hl (a := .takeReady) trivial (by simp) rfl (by simp) hs
    exact ih (sound_visit hl' h) (owes_visit hl' (hs'.cons h))

/-- A pass leaves nothing that has ended, if all that had ended before is visited or the level is
marked. -/
theorem spares_pass {handles : List Handle} (hs : s.Spares handles) :
    (s.pass handles).Spares [] := by
  refine (pass_induct (P := fun rest t => t.level.Sound ∧ t.Spares rest) ⟨hl, hs⟩ ?_).2
  rintro h rest left t ⟨htl, ht⟩
  have hv := sound_visit htl h
  exact ⟨sound_settle hv left, spares_settle hv left (owes_visit htl (.inr ht))⟩

/-! ## Calls -/

theorem noneEnded_settled (hs : s.level.Remembers) :
    s.settled.level.NoneEnded :=
  spares_nil_iff.mp (spares_settle hl _ (owes_nil_iff.mpr hs))

theorem noneEnded_startKind (hs : s.level.Remembers)
    (hrole : s.level.isReplica = true → s.level.NoneEnded) (kind : ScriptKind)
    (activator : Option Actor) (always : Bool) :
    (s.startKind kind activator always).2.level.NoneEnded := by
  unfold startKind
  split
  · rename_i hr
    exact hrole hr
  · show (s.startAll (s.kindLaunches kind activator always)).2.settled.level.NoneEnded
    rw [← actAll_startAll]
    refine noneEnded_settled (sound_actAll hl _) (remembers_actAll hl (fun a ha => ?_) hs)
    obtain ⟨p, -, rfl⟩ := List.mem_map.mp ha
    exact ⟨rfl, by simp⟩

theorem noneEnded_begin (hs : s.level.Remembers)
    (hrole : s.level.isReplica = false) : s.begin.level.NoneEnded := by
  unfold begin
  rw [if_neg (by simp [hrole])]
  have hl₀ := sound_act hl .takeDeferred
  have hs₀ := remembers_act hl (a := .takeDeferred) rfl (by simp) hs
  have hdelivered : s.delivered.level.Sound ∧ s.delivered.level.NoneEnded := by
    unfold delivered
    rw [← actAll_map .deliver deliver fun _ _ => rfl]
    have hl₁ := sound_actAll hl₀ ((s.session.deferred.waiting s.level.map).map .deliver)
    refine ⟨sound_settle hl₁ _, noneEnded_settled hl₁ (remembers_actAll hl₀ (fun a ha => ?_) hs₀)⟩
    obtain ⟨e, -, rfl⟩ := List.mem_map.mp ha
    exact ⟨rfl, by simp⟩
  exact noneEnded_startKind hdelivered.1 (.inr hdelivered.2) (fun _ => hdelivered.2) _ _ _

theorem remembers_tick (hs : s.level.Remembers) :
    s.tick.level.Remembers := by
  unfold tick
  split
  · exact hs
  · have hbegun : (s.act .tick).level.Remembers := remembers_act hl rfl (by simp) hs
    have hpass : ((s.act .tick).pass (s.act .tick).dueHandles).level.Sound ∧
        ((s.act .tick).pass (s.act .tick).dueHandles).Owes [] := by
      refine pass_induct (P := fun _ t => t.level.Sound ∧ t.Owes [])
        ⟨sound_act hl .tick, owes_nil_iff.mpr hbegun⟩ fun h rest left t ⟨htl, ht⟩ => ?_
      have hv := sound_visit htl h
      exact ⟨sound_settle hv left, .inr (spares_settle hv left (owes_visit htl (ht.cons h)))⟩
    exact owes_nil_iff.mp hpass.2

end Call

/-- Whatever has ended is visited in the next tick, marked or not. -/
theorem noneEnded_tick (hl : s.level.AtRest) (hc : s.level.Current)
    (hrole : s.level.isReplica = false) (hcount : s.level.tick + 1 ≠ 0) :
    s.tick.level.NoneEnded := by
  unfold tick
  rw [if_neg (by simp [hrole])]
  refine spares_nil_iff.mp (spares_pass (sound_act hl.sound .tick) fun h i hi _ => ?_)
  have hlast : i.lastTick != s.level.tick + 1 := bne_iff_ne.mpr (hc.ne_succ hcount hi)
  have hmem := (Roster.mem_entries_iff hl.sound.roster).mpr hi
  refine ⟨List.mem_map_of_mem (f := Prod.fst) (List.mem_filter.mpr ⟨hmem, hlast⟩), ?_, ?_⟩
  · show h ∉ s.level.ready
    rw [hl.quiet.2]
    exact List.not_mem_nil
  · exact Bool.or_eq_true_iff.mpr (.inl hlast)

end Simulation

namespace Operation

variable {ω : Type} [Host ω] {s : Simulation ω} {op : Operation}

open Simulation

/-- Such a call leaves nothing that has ended. -/
theorem noneEnded_run (hl : s.level.AtRest) (hop : op.settles = true) (htick : op ≠ .tick)
    (hrole : s.level.isReplica = false) (hs : s.level.Remembers) :
    (op.run s).2.level.NoneEnded := by
  cases op with
  | begin => exact noneEnded_begin hl.sound hs hrole
  | launch p =>
    show (s.launch p).2.level.NoneEnded
    rw [Simulation.launch, if_neg (by simp [hrole])]
    exact noneEnded_settled (sound_act hl.sound (.start p))
      (remembers_act hl.sound (a := .start p) rfl (by simp) hs)
  | request r =>
    show (s.request r).2.level.NoneEnded
    rw [Simulation.request, if_neg (by simp [hrole])]
    exact noneEnded_settled (sound_act hl.sound (.route r))
      (remembers_act hl.sound (a := .route r) rfl (by simp) hs)
  | startKind kind activator always =>
    exact noneEnded_startKind hl.sound hs (by simp [hrole]) kind activator always
  | tick => exact absurd rfl htick
  | _ => cases hop

/-- Operations keep the mark in step. -/
theorem remembers_run (hl : s.level.AtRest) (hs : s.level.Remembers) (op : Operation) :
    (op.run s).2.level.Remembers := by
  by_cases htick : op = .tick
  · subst htick
    exact remembers_tick hl.sound hs
  · by_cases hrole : op.settles = true ∧ s.level.isReplica = false
    · exact .inr (noneEnded_run hl hrole.1 htick hrole.2 hs)
    · rw [op.run_eq_acts]
      refine remembers_actAll hl.sound (fun a ha => ?_) hs
      cases op with
      | tick => exact absurd rfl htick
      | putFirst which | putLast which =>
        obtain ⟨k, -, rfl⟩ := Option.map_eq_some_iff.mp (Option.mem_toList.mp ha)
        exact ⟨rfl, by simp⟩
      | setStatus | setVar | setElement | terminateAll =>
        rw [List.mem_singleton.mp ha]
        exact ⟨rfl, by simp⟩
      | _ => simp_all [settles, acts, beginActs, startKindActs]

/-- No such call drops all instances. -/
theorem terminateAll_not_mem (hop : op.settles = true) : .terminateAll ∉ op.acts s := by
  have hround (t : Simulation ω) (acts : List Act) (h : t.AllInRound acts) :
      .terminateAll ∉ acts := by
    induction acts generalizing t with
    | nil => exact List.not_mem_nil
    | cons a acts ih =>
      rintro (_ | ⟨_, hmem⟩)
      · exact h.1
      · exact ih _ h.2 hmem
  have hsettled (t : Simulation ω) : .terminateAll ∉ t.settledActs :=
    hround t _ (allInRound_settleActs _ t)
  cases op with
  | begin => grind [acts, beginActs, startKindActs]
  | launch p => grind [acts]
  | request r => grind [acts]
  | startKind kind activator always => grind [acts, startKindActs]
  | tick => grind [acts, tickActs, allInRound_passActs]
  | _ => cases hop

end Operation

/-! ## Until it is removed -/

namespace Simulation

variable {ω : Type} [Host ω] {s : Simulation ω} {h : Handle} {i : Instance} {a : Act}

/-- An instance that has ended stays as it is until it is removed. -/
theorem ended_stays {acts : List Act} (hl : s.level.Sound) (hi : s.level.instance? h = some i)
    (hend : i.status.isTerminal = true) (hremove : .remove h ∉ acts)
    (hdrop : .terminateAll ∉ acts) :
    ∃ j, (s.actAll acts).level.instance? h = some j ∧ j.number = i.number ∧
      j.status = i.status := by
  induction acts generalizing s i with
  | nil => exact ⟨i, hi, rfl, rfl⟩
  | cons a acts ih =>
    rw [List.mem_cons, not_or] at hremove hdrop
    obtain ⟨j, hj, hfate⟩ := exists_fate hl hi (Ne.symm hremove.1) (Ne.symm hdrop.1)
    have hstatus := status_of_terminal hl hi hend hj
    obtain ⟨k, hk, hnumber, hstatus'⟩ :=
      ih (sound_act hl a) hj (hstatus ▸ hend) hremove.2 hdrop.2
    exact ⟨k, hk, hnumber.trans hfate.script.1, hstatus'.trans hstatus⟩

omit [Host ω] in
/-- What it is to remove the instance of a handle: it is no longer listed nor tracked, and all
that waited for its script run. -/
structure Removes (s : Simulation ω) (h : Handle) (n : Int32) (s' : Simulation ω) : Prop where
  gone : s'.level.instance? h = none
  unlisted : h ∉ s'.level.roster.handles
  untracked : ∀ m, s'.level.find? m ≠ some h
  woken : ∀ k w, s.level.instance? k = some w → w.status = .scriptWait n →
    s'.level.instance? k = some { w with status := .running }

theorem removes_of_ended (hl : s.level.Sound) (hi : s.level.instance? h = some i)
    (hend : i.status.isTerminal = true) : s.Removes h i.number (s.act (.remove h)) := by
  have hl' := sound_act hl (.remove h)
  have hgone : (s.act (.remove h)).level.instance? h = none :=
    instance?_remove_eq_none hl h (.inl rfl)
  refine ⟨hgone, fun hmem => ?_, fun m hm => ?_, fun k w hw hwait => ?_⟩
  · rw [Roster.handles_eq hl'.roster] at hmem
    obtain ⟨⟨k, j⟩, hentry, rfl⟩ := List.mem_map.mp hmem
    cases hgone.symm.trans ((Roster.mem_entries_iff hl'.roster).mp hentry)
  · obtain ⟨j, hj, -⟩ := hl'.find hm
    cases hgone.symm.trans hj
  · refine (woken_remove hl hw hwait ?_ hi rfl).1
    rintro rfl
    rw [Option.some.inj (hi.symm.trans hw), hwait] at hend
    cases hend

end Simulation

/-! ## Levels that a game meets -/

namespace Level

/-- The levels that a game meets: it starts one, performs operations of any kind, and goes on from
what it saved before. -/
inductive Met : Level → Prop
  | start (program : Program) (map : Int32) (config : Config) : Met (start program map config)
  | run {ω : Type} [Host ω] {s : Simulation ω} (h : Met s.level) (op : Operation) :
      Met (op.run s).2.level
  | restore {l l' : Level} {program : Program} {config : Config} (h : Met l)
      (hr : restore program l.snapshot config = .ok l') : Met l'

/-- Those among them where what has ended was not saved: since the start or the last tick, the
game went on only from levels in which nothing had ended. -/
inductive Tidy : Level → Prop
  | start (program : Program) (map : Int32) (config : Config) : Tidy (start program map config)
  | run {ω : Type} [Host ω] {s : Simulation ω} (h : Tidy s.level) (op : Operation) :
      Tidy (op.run s).2.level
  | tick {ω : Type} [Host ω] {s : Simulation ω} (h : Met s.level)
      (role : s.level.isReplica = false) (count : s.level.tick + 1 ≠ 0) : Tidy s.tick.level
  | restore {l l' : Level} {program : Program} {config : Config} (h : Met l) (none : l.NoneEnded)
      (hr : restore program l.snapshot config = .ok l') : Tidy l'

/-- A restored level bears no mark. -/
theorem restore_frame {l : Level} {program : Program} {snapshot : Snapshot} {config : Config}
    (hr : restore program snapshot config = .ok l) :
    l.reapPending = false ∧ l.program = program ∧ l.config = config := by
  obtain ⟨-, memory, instances, -, -, rfl⟩ := restore_eq_ok hr
  rw [foldl_addRestored_eq]
  exact ⟨rfl, rfl, rfl⟩

theorem NoneEnded.restore {l l' : Level} {program : Program} {config : Config}
    (hnone : l.NoneEnded) (hl : l.Sound) (hr : restore program l.snapshot config = .ok l') :
    l'.NoneEnded := by
  intro k j hj
  obtain ⟨a, i, hi, script, -, rfl⟩ := exists_of_restore hl hr hj
  exact hnone a i hi

theorem Current.restore {l l' : Level} {program : Program} {config : Config} (hc : l.Current)
    (hl : l.Sound) (hr : restore program l.snapshot config = .ok l') : l'.Current := by
  intro k j hj
  obtain ⟨a, i, hi, script, -, rfl⟩ := exists_of_restore hl hr hj
  rw [tick_restore hr]
  exact hc a i hi

theorem Met.atRest {l : Level} (h : l.Met) : l.AtRest ∧ l.Current := by
  induction h with
  | start program map config => exact ⟨atRest_start _ _ _, current_start _ _ _⟩
  | run _ op ih => exact ⟨ih.1.run op, ih.2.run ih.1 op⟩
  | restore _ hr ih => exact ⟨atRest_restore hr, ih.2.restore ih.1.sound hr⟩

theorem Tidy.met {l : Level} (h : l.Tidy) : l.Met := by
  induction h with
  | start program map config => exact .start program map config
  | run _ op ih => exact ih.run op
  | tick h _ _ => exact h.run .tick
  | restore h _ hr => exact h.restore hr

theorem Tidy.remembers {l : Level} (h : l.Tidy) : l.AtRest ∧ l.Remembers := by
  induction h with
  | start program map config =>
    have hl := atRest_start program map config
    refine ⟨hl, .inr fun h i hi => ?_⟩
    have hmem := (Roster.mem_entries_iff hl.sound.roster).mpr hi
    exact absurd hmem List.not_mem_nil
  | run _ op ih => exact ⟨ih.1.run op, op.remembers_run ih.1 ih.2⟩
  | @tick ω _ s h role count =>
    obtain ⟨hl, hc⟩ := h.atRest
    exact ⟨hl.run .tick, .inr (Simulation.noneEnded_tick hl hc role count)⟩
  | restore h none hr => exact ⟨atRest_restore hr, .inr (none.restore h.atRest.1.sound hr)⟩

end Level

open Simulation in
/-- **What has ended does not outlive the next call.** In every level that a game meets, a tick
removes every instance that has ended, and so does every other call that settles, provided that
no such instance came out of a snapshot since the last tick. It is there until one of the acts of
the call removes it from the list and the registry and wakes all that wait for its script; and
after the call, nothing is there that has ended. The counter of ticks must not overflow. -/
theorem ended_removed_by_next_call {ω : Type} [Host ω] {s : Simulation ω} (hs : s.level.Met)
    (hrole : s.level.isReplica = false) {op : Operation} (hop : op.settles = true)
    (hcount : op = .tick → s.level.tick + 1 ≠ 0) (hkept : op = .tick ∨ s.level.Tidy) :
    (op.run s).2 = s.actAll (op.acts s) ∧ (op.run s).2.level.NoneEnded ∧
    ∀ h i, s.level.instance? h = some i → i.status.isTerminal = true →
      ∃ before after j, op.acts s = before ++ .remove h :: after ∧ .remove h ∉ before ∧
        (s.actAll before).level.instance? h = some j ∧ j.number = i.number ∧
        j.status = i.status ∧
        (s.actAll before).Removes h i.number ((s.actAll before).act (.remove h)) := by
  obtain ⟨hl, hc⟩ := hs.atRest
  have hnone : (op.run s).2.level.NoneEnded := by
    by_cases htick : op = .tick
    · have hcount' := hcount htick
      subst htick
      exact noneEnded_tick hl hc hrole hcount'
    · exact op.noneEnded_run hl hop htick hrole (hkept.resolve_left htick).remembers.2
  refine ⟨op.run_eq_acts s, hnone, fun h i hi hend => ?_⟩
  have hdrop : .terminateAll ∉ op.acts s := op.terminateAll_not_mem hop
  have hmem : .remove h ∈ op.acts s := by
    by_contra hremove
    obtain ⟨j, hj, -, hstatus⟩ := ended_stays hl.sound hi hend hremove hdrop
    rw [← op.run_eq_acts] at hj
    have halive := hnone h j hj
    rw [hstatus, hend] at halive
    cases halive
  obtain ⟨before, after, hacts, hfirst⟩ := exists_first hmem
  rw [hacts] at hdrop
  obtain ⟨j, hj, hnumber, hstatus⟩ := ended_stays hl.sound hi hend hfirst
    (fun h => hdrop (List.mem_append_left _ h))
  refine ⟨before, after, j, hacts, hfirst, hj, hnumber, hstatus, ?_⟩
  exact hnumber ▸ removes_of_ended (sound_actAll hl.sound before) hj (hstatus ▸ hend)

/-! ## An ended instance in a snapshot -/

namespace Unreaped

open Simulation

/-- Neither script ran yet; script 2 waits for the end of script 1, which was ended from outside
and is still there. -/
def ended : Simulation StillWorld :=
  (Operation.run (Operation.run Doomed.second (.setStatus 2 (.scriptWait 1))).2
    (.setStatus 1 .pleaseRemove)).2

/-- The same from a snapshot. -/
def restored : Simulation StillWorld :=
  { ended with
    level := (Level.restore Doomed.program ended.level.snapshot .standard).toOption.getD default }

theorem tidy_ended : ended.level.Tidy := by
  have hidle : Doomed.idle.level.Tidy := .start Doomed.program 1 .standard
  have hfirst : Doomed.first.level.Tidy := Doomed.run_first ▸ hidle.run _
  have hsecond : Doomed.second.level.Tidy := Doomed.run_second ▸ hfirst.run _
  exact (hsecond.run _).run _

/-- A call that starts nothing removes script 1, and script 2 runs again. -/
theorem ended_removed_by_next_call_waited :
    ended.level.Met ∧ ended.level.Tidy ∧ ended.level.isReplica = false ∧
    ended.level.instances.map (·.status) = [.pleaseRemove, .scriptWait 1] ∧
    (Operation.run ended (.startKind .opening none false)).2.level.NoneEnded ∧
    ∃ before after, Operation.acts ended (.startKind .opening none false) =
        before ++ .remove ⟨0, 0⟩ :: after ∧
      (ended.actAll before).Removes ⟨0, 0⟩ 1 ((ended.actAll before).act (.remove ⟨0, 0⟩)) := by
  have hfacts : ended.level.isReplica = false ∧
      ended.level.instances.map (·.status) = [.pleaseRemove, .scriptWait 1] ∧
      (ended.level.instance? ⟨0, 0⟩).map (fun i => (i.number, i.status)) =
        some (1, .pleaseRemove) := by decide +kernel
  obtain ⟨hrole, hstatuses, hfound⟩ := hfacts
  obtain ⟨i, hi, hpair⟩ := Option.map_eq_some_iff.mp hfound
  obtain ⟨hnumber, hstatus⟩ := Prod.mk.inj hpair
  obtain ⟨-, hnone, hremoved⟩ := ended_removed_by_next_call tidy_ended.met hrole
    (rfl : Operation.settles (.startKind .opening none false) = true) (by simp) (.inr tidy_ended)
  obtain ⟨before, after, -, hacts, -, -, -, -, hremoves⟩ :=
    hremoved ⟨0, 0⟩ i hi (by rw [hstatus]; rfl)
  rw [hnumber] at hremoves
  exact ⟨tidy_ended.met, tidy_ended, hrole, hstatuses, hnone, before, after, hacts, hremoves⟩

/-- After a restore the same call leaves everything as it is: script 1 has ended and is still
there and tracked, and script 2 waits for it. -/
theorem restored_not_removed :
    Level.restore Doomed.program ended.level.snapshot .standard = .ok restored.level ∧
    restored.level.Met ∧ restored.level.isReplica = false ∧
    restored.level.instances.map (·.status) = [.pleaseRemove, .scriptWait 1] ∧
    restored.level.find? 1 = some ⟨0, 0⟩ ∧
    (Operation.run restored (.startKind .opening none false)).2 = restored := by
  have hfacts : (Level.restore Doomed.program ended.level.snapshot .standard).toOption.map
      (fun l => (l.instances.map (·.status), l.find? 1)) =
      some ([.pleaseRemove, .scriptWait 1], some ⟨0, 0⟩) := by decide +kernel
  obtain ⟨l, hl, hpair⟩ := Option.map_eq_some_iff.mp hfacts
  obtain ⟨hstatuses, hfind⟩ := Prod.mk.inj hpair
  have hlevel : restored.level = l := by rw [restored, hl, Option.getD_some]
  have hok : Level.restore Doomed.program ended.level.snapshot .standard = .ok restored.level := by
    rw [hlevel]
    cases hr : Level.restore Doomed.program ended.level.snapshot .standard with
    | ok l' => rw [hr] at hl; exact congrArg Except.ok (Option.some.inj hl)
    | error e => rw [hr] at hl; cases hl
  rw [← hlevel] at hstatuses hfind
  have hmet : restored.level.Met := .restore tidy_ended.met hok
  obtain ⟨hpending, hready⟩ := hmet.atRest.1.quiet
  obtain ⟨hmark, hprogram, hconfig⟩ := Level.restore_frame hok
  have hrole : restored.level.isReplica = false := by
    rw [Level.isReplica, hconfig]
    rfl
  refine ⟨hok, hmet, hrole, hstatuses, hfind, ?_⟩
  have hrun (s : Simulation StillWorld) : (Operation.run s (.startKind .opening none false)).2 =
      (s.startKind .opening none false).2 := rfl
  rw [hrun, startKind, if_neg (by simp [hrole]), hprogram,
    show Doomed.program.scriptsOfKind .opening = [] from rfl]
  show (restored.settle maxFirstTurns).2 = restored
  rw [settle_done hpending hready]
  show restored.reap = restored
  rw [reap, if_neg (by simp [hmark])]

end Unreaped

end LevelScript
