import LevelScript.Proofs.Level.Aside
import LevelScript.Proofs.Level.Consistency

/-!
# Acts in their places

An operation makes its acts only where they belong, and a tick leaves nobody out.

* `Act.Proper`: what an act relies on where it stands. Only what has ended is removed, and only
  the first of the new instances is put off.
* `exists_proper_acts`: the acts of every operation are proper, after the one that begins a tick.
* `stamped_tick`: after a tick every instance has taken its turn in it, or was put off.
-/

namespace LevelScript

/-- What an act relies on where it stands in an operation. The beginning of a tick stands only at
the front. `sets` are the statuses that may be set from outside. -/
def Act.Proper {ω : Type} (sets : Status → Prop) (s : Simulation ω) : Act → Prop
  | .tick => False
  | .setStatus _ st => sets st
  | .turn h => h ∉ s.level.ready
  | .remove h => h ∉ s.level.ready ∧ ∀ i, s.level.instance? h = some i → i.status.isTerminal = true
  | .postpone h => ∃ rest, s.level.ready = h :: rest
  | _ => True

/-- Statuses among which instances stay while others act on them. -/
structure Status.Closed (sets : Status → Prop) : Prop where
  running : sets .running
  suspended : sets .suspended
  pleaseRemove : sets .pleaseRemove
  promoted : ∀ n st, sets st → sets (Level.promoted n st)

/-- Besides its turns, an instance keeps a status among those given. -/
theorem Level.Aside.closed {sets : Status → Prop} {l : Level} {a : Act} {h : Handle}
    {i j : Instance} (hside : l.Aside a h i j) (hsets : Status.Closed sets) (ha : a.Sets sets)
    (hst : sets i.status) : sets j.status := by
  cases hside with
  | same | postponed => exact hst
  | @promoted n wait =>
    have hpromoted := hsets.promoted n i.status hst
    rwa [wait, Level.promoted, if_pos rfl] at hpromoted
  | woken | resumed => exact hsets.running
  | set _ hset => exact hset.sets hsets.suspended hsets.pleaseRemove ha

namespace Act.Proper

variable {ω : Type} {among : Status → Prop} {s : Simulation ω} {a : Act}

theorem sets (h : a.Proper among s) : a.Sets among := by
  cases a with
  | setStatus script st => exact h
  | _ => trivial

theorem ne_tick (h : a.Proper among s) : a ≠ .tick := by
  rintro rfl
  exact h

end Act.Proper

/-! ## New instances in their queue -/

namespace Simulation

variable {ω : Type}

/-- The new instances are there, each once in the queue. -/
structure Queued (sets : Status → Prop) (s : Simulation ω) : Prop where
  nodup : s.level.ready.Nodup
  live : ∀ h ∈ s.level.ready, ∃ i, s.level.instance? h = some i ∧ sets i.status

section Queued

variable {sets : Status → Prop} {s : Simulation ω}

theorem Queued.of_quiet (hq : s.level.Quiet) : s.Queued sets :=
  ⟨hq.2 ▸ List.nodup_nil, fun _ hh => absurd (hq.2 ▸ hh) List.not_mem_nil⟩

variable [Host ω]

theorem instance?_turn (hl : s.level.Sound) {h : Handle} {i : Instance}
    (hi : s.level.instance? h = some i) (k : Handle) :
    (s.turn h).level.instance? k =
      if k = h then some (s.advance i).1 else s.level.instance? k := by
  have hturn : s.turn h = (s.advance i).2.seat h (s.advance i).1 := by rw [turn, hi]
  have hroster := (advance_spec s i).2.roster
  rw [hturn]
  show ((s.advance i).2.level.roster.modify h _).instance? k = _
  rw [hroster, Roster.instance?_modify hl.roster]
  split
  · rename_i hk
    rw [hk, show s.level.roster.instance? h = some i from hi]
    rfl
  · rfl

theorem ready_turn (s : Simulation ω) (h : Handle) :
    (s.turn h).level.ready = s.level.ready := by
  unfold turn
  split
  · rfl
  · rename_i i _
    exact (advance_spec s i).2.ready

/-- No proper act disturbs the queue. -/
theorem queued_act (hsets : Status.Closed sets) (hl : s.level.Sound) (hq : s.Queued sets) {a : Act}
    (ha : a.Proper sets s) : (s.act a).Queued sets := by
  have hstep := step_act s a
  have hkept (h : Handle) (hold : h ∈ s.level.ready) (hh : h ∈ (s.act a).level.ready) :
      ∃ j, (s.act a).level.instance? h = some j ∧ sets j.status := by
    obtain ⟨i, hi, hst⟩ := hq.live h hold
    rcases hstep.fate hl hi with ⟨j, hj, hfate⟩ | ⟨-, rfl | rfl⟩
    · refine ⟨j, hj, ?_⟩
      cases hfate with
      | turn act =>
        subst act
        exact absurd hold ha
      | postpone => exact hst
      | aside _ _ aside => exact aside.closed hsets ha.sets hst
    · exact absurd hold ha.1
    · exact absurd hh List.not_mem_nil
  rcases hstep.ready hl with hsub | ⟨h, heq, hnone, hsome⟩
  · exact ⟨hq.nodup.sublist hsub, fun h hh => hkept h (hsub.subset hh) hh⟩
  · -- A new instance has a handle of its own.
    have hnot : h ∉ s.level.ready := by
      intro hmem
      obtain ⟨i, hi, -⟩ := hq.live h hmem
      cases hnone.symm.trans hi
    refine ⟨?_, fun k hk => ?_⟩
    · rw [heq, List.nodup_append_comm]
      exact List.nodup_cons.mpr ⟨hnot, hq.nodup⟩
    · rcases List.mem_append.mp (heq ▸ hk) with hold | hself
      · exact hkept k hold hk
      · obtain rfl := List.mem_singleton.mp hself
        obtain ⟨j, hj⟩ := Option.ne_none_iff_exists'.mp hsome
        rcases hstep.origin hl hj with ⟨i, hi, -⟩ | ⟨-, hnew, -⟩
        · cases hnone.symm.trans hi
        · exact ⟨j, hj, hnew.running ▸ hsets.running⟩

end Queued

end Simulation

/-! ## Acts in their places -/

namespace Simulation

variable {ω : Type} [Host ω]

/-- Every act is proper when it is reached. -/
def Proper (sets : Status → Prop) (s : Simulation ω) : List Act → Prop
  | [] => True
  | a :: rest => a.Proper sets s ∧ (s.act a).Proper sets rest

section Proper

variable {sets : Status → Prop} {s : Simulation ω}

theorem proper_append (xs ys : List Act) :
    s.Proper sets (xs ++ ys) ↔ s.Proper sets xs ∧ (s.actAll xs).Proper sets ys := by
  induction xs generalizing s with
  | nil => simp [Proper]
  | cons a xs ih => simp only [List.cons_append, Proper, ih, actAll_cons, and_assoc]

theorem proper_map {α : Type} (make : α → Act) (h : ∀ (s : Simulation ω) x, (make x).Proper sets s)
    (xs : List α) : s.Proper sets (xs.map make) := by
  induction xs generalizing s with
  | nil => trivial
  | cons x xs ih => exact ⟨h s x, ih⟩

theorem queued_actAll (hsets : Status.Closed sets) {acts : List Act} (hl : s.level.Sound)
    (hq : s.Queued sets) (hp : s.Proper sets acts) : (s.actAll acts).Queued sets := by
  induction acts generalizing s with
  | nil => exact hq
  | cons a rest ih => exact ih (sound_act hl a) (queued_act hsets hl hq hp.1) hp.2

theorem proper_visitActs (hl : s.level.Sound) {h : Handle} (hh : h ∉ s.level.ready) :
    s.Proper sets (s.visitActs h) := by
  unfold visitActs
  cases hi : s.level.instance? h with
  | none => trivial
  | some i =>
    dsimp only
    split
    · split
      · rename_i hterminal
        refine ⟨hh, ⟨fun hmem => hh (ready_turn s h ▸ hmem), fun j hj => ?_⟩, trivial⟩
        rw [show s.act (.turn h) = s.turn h from rfl, instance?_turn hl hi, if_pos rfl] at hj
        rw [← Option.some.inj hj]
        exact hterminal
      · exact ⟨hh, trivial⟩
    · trivial

theorem woken_of_terminal {n : Int32} {i : Instance} (h : i.status.isTerminal = true) :
    Level.woken n i = i := by
  unfold Level.woken
  rw [if_neg]
  intro hw
  rw [hw] at h
  exact absurd h (by simp [Status.isTerminal])

/-- Removing what has ended leaves other instances that have ended as they are. -/
theorem proper_map_remove (hl : s.level.Sound) (hready : s.level.ready = []) {handles : List Handle}
    (h : ∀ k ∈ handles, ∀ i, s.level.instance? k = some i → i.status.isTerminal = true) :
    s.Proper sets (handles.map .remove) := by
  induction handles generalizing s with
  | nil => trivial
  | cons k rest ih =>
    have hk := h k List.mem_cons_self
    cases hi : s.level.instance? k with
    | none =>
      have hsame : s.act (.remove k) = s := by
        show s.remove k = s
        rw [remove, hi]
      refine ⟨⟨by simp [hready], hk⟩, ?_⟩
      rw [hsame]
      exact ih hl hready fun k' hk' => h k' (List.mem_cons_of_mem _ hk')
    | some j =>
      have hlevel : (s.act (.remove k)).level = s.level.remove k := by
        show (s.remove k).level = _
        rw [remove, hi]
        rfl
      refine ⟨⟨by simp [hready], hk⟩, ih (sound_act hl _) ?_ fun k' hk' i hi' => ?_⟩
      · rw [hlevel, Level.remove_frame hi]
        exact hready
      · have hend := h k' (List.mem_cons_of_mem _ hk')
        rw [hlevel, Level.instance?_remove hl.roster hi] at hi'
        split at hi'
        · simp at hi'
        · obtain ⟨i₀, hi₀, rfl⟩ := Option.map_eq_some_iff.mp hi'
          rw [woken_of_terminal (hend i₀ hi₀)]
          exact hend i₀ hi₀

theorem proper_reapActs (hl : s.level.Sound) (hready : s.level.ready = []) :
    s.Proper sets s.reapActs := by
  unfold reapActs
  split
  · refine ⟨trivial, proper_map_remove (sound_act hl .reap) hready fun k hk i hi => ?_⟩
    obtain ⟨j, hj, hend⟩ := (Level.handlesWhere_waits hl.roster _).2 k hk
    have hsame : s.level.instance? k = some i := hi
    rw [hj] at hsame
    rwa [← Option.some.inj hsame]
  · trivial

theorem sound_visit (hl : s.level.Sound) (h : Handle) : (s.visit h).level.Sound :=
  actAll_visitActs s h ▸ sound_actAll hl _

theorem sound_settle (hl : s.level.Sound) (left : Nat) : (s.settle left).2.level.Sound :=
  actAll_settleActs left s ▸ sound_actAll hl _

theorem proper_settleActs (hsets : Status.Closed sets) (left : Nat) {s : Simulation ω}
    (hl : s.level.Sound) (hq : s.Queued sets) : s.Proper sets (s.settleActs left) := by
  refine settleActs_induct (P := fun s acts => s.level.Sound → s.Queued sets → s.Proper sets acts)
    (fun hx hy hl hq => ?_) (fun s r rest _ _ _ => ⟨trivial, trivial, trivial⟩)
    (fun s h rest hr hl hq => ⟨trivial, proper_visitActs (sound_act hl .takeReady) ?_⟩)
    (fun s h rest hr _ _ => ⟨⟨rest, hr⟩, trivial⟩) (fun s _ hr hl _ => proper_reapActs hl hr)
    left s hl hq
  · have hproper := hx hl hq
    exact (proper_append _ _).mpr
      ⟨hproper, hy (sound_actAll hl _) (queued_actAll hsets hl hq hproper)⟩
  · have hnodup := hq.nodup
    rw [hr] at hnodup
    show h ∉ s.level.ready.tail
    rw [hr]
    exact (List.nodup_cons.mp hnodup).1

theorem proper_passActs (hsets : Status.Closed sets) (left : Nat) (hl : s.level.Sound)
    (hq : s.level.Quiet) (handles : List Handle) : s.Proper sets (s.passActs left handles) := by
  induction handles generalizing left s with
  | nil => trivial
  | cons h rest ih =>
    have hv := sound_visit hl h
    have hvisit : s.Proper sets (s.visitActs h) := proper_visitActs hl (by simp [hq.2])
    have hqueued : (s.visit h).Queued sets :=
      actAll_visitActs s h ▸ queued_actAll hsets hl (.of_quiet hq) hvisit
    rw [passActs, proper_append, proper_append, actAll_append, actAll_visitActs, actAll_settleActs]
    exact ⟨⟨hvisit, proper_settleActs hsets left hv hqueued⟩,
      ih _ (sound_settle hv left) (quiet_settle left _)⟩

theorem proper_startKindActs (hsets : Status.Closed sets) (hl : s.level.Sound) (hq : s.level.Quiet)
    (kind : ScriptKind) (activator : Option Actor) (always : Bool) :
    s.Proper sets (s.startKindActs kind activator always) := by
  unfold startKindActs
  split
  · trivial
  · have hstart : s.Proper sets ((s.kindLaunches kind activator always).map .start) :=
      proper_map .start (fun _ _ => trivial) _
    refine (proper_append _ _).mpr ⟨hstart, ?_⟩
    rw [actAll_startAll]
    refine proper_settleActs hsets _ (actAll_startAll s _ ▸ sound_actAll hl _) ?_
    rw [← actAll_startAll]
    exact queued_actAll hsets hl (.of_quiet hq) hstart

theorem proper_beginActs (hsets : Status.Closed sets) (hl : s.level.Sound) (hq : s.level.Quiet) :
    s.Proper sets s.beginActs := by
  unfold beginActs
  split
  · trivial
  · have hdeliver : ((s.session.deferred.waiting s.level.map).foldl deliver s.takeDeferred) =
        s.actAll (.takeDeferred :: (s.session.deferred.waiting s.level.map).map .deliver) := by
      rw [actAll_cons, actAll_map .deliver deliver fun _ _ => rfl]
      rfl
    have hdelivered : s.delivered = s.actAll ((.takeDeferred ::
        (s.session.deferred.waiting s.level.map).map .deliver) ++
        ((s.session.deferred.waiting s.level.map).foldl deliver s.takeDeferred).settledActs) := by
      rw [actAll_append, ← hdeliver]
      exact (actAll_settledActs _).symm
    have hproper : s.Proper sets (.takeDeferred ::
        (s.session.deferred.waiting s.level.map).map .deliver) :=
      ⟨trivial, proper_map .deliver (fun _ _ => trivial) _⟩
    refine (proper_append _ _).mpr ⟨(proper_append _ _).mpr ⟨(proper_append _ _).mpr
      ⟨hproper, ?_⟩, ?_⟩, trivial, trivial⟩
    · rw [← hdeliver]
      refine proper_settleActs hsets _ (hdeliver ▸ sound_actAll hl _) ?_
      rw [hdeliver]
      exact queued_actAll hsets hl (.of_quiet hq) hproper
    · rw [← hdelivered]
      have hl' : s.delivered.level.Sound := hdelivered ▸ sound_actAll hl _
      exact proper_startKindActs hsets hl' (quiet_settle _ _) _ _ _

end Proper

end Simulation

namespace Operation

open Simulation

variable {ω : Type} [Host ω] {sets : Status → Prop} {s : Simulation ω}

/-- The statuses that an operation sets are among those given. -/
def Sets (sets : Status → Prop) : Operation → Prop
  | setStatus _ st => sets st
  | _ => True

theorem proper_acts (hclosed : Status.Closed sets) (hl : s.level.AtRest) {op : Operation}
    (hop : op ≠ .tick) (hsets : op.Sets sets) : s.Proper sets (op.acts s) := by
  cases op with
  | tick => exact absurd rfl hop
  | begin => exact proper_beginActs hclosed hl.sound hl.quiet
  | launch p =>
    simp only [acts]
    split
    · trivial
    · refine ⟨trivial, proper_settleActs hclosed _ (sound_act hl.sound (.start p)) ?_⟩
      exact queued_act hclosed hl.sound (.of_quiet hl.quiet) (a := .start p) trivial
  | request r =>
    simp only [acts]
    split
    · trivial
    · refine ⟨trivial, proper_settleActs hclosed _ (sound_act hl.sound (.route r)) ?_⟩
      exact queued_act hclosed hl.sound (.of_quiet hl.quiet) (a := .route r) trivial
  | startKind kind activator always =>
    exact proper_startKindActs hclosed hl.sound hl.quiet kind activator always
  | putFirst which =>
    simp only [acts]
    cases which.find? s.level with
    | none => trivial
    | some h => exact ⟨trivial, trivial⟩
  | putLast which =>
    simp only [acts]
    cases which.find? s.level with
    | none => trivial
    | some h => exact ⟨trivial, trivial⟩
  | setStatus script status => exact ⟨hsets, trivial⟩
  | setVar index value => exact ⟨trivial, trivial⟩
  | setElement array index value => exact ⟨trivial, trivial⟩
  | terminateAll => exact ⟨trivial, trivial⟩

/-- The acts of an operation are proper, after the one that begins a tick. -/
theorem exists_proper_acts (hclosed : Status.Closed sets) (hl : s.level.AtRest) {op : Operation}
    (hsets : op.Sets sets) :
    ∃ front rest, op.acts s = front ++ rest ∧ (front = [] ∨ op = .tick ∧ front = [.tick]) ∧
      (s.actAll front).Proper sets rest := by
  by_cases hop : op = .tick
  · subst hop
    by_cases hr : s.level.isReplica = true
    · exact ⟨[], [], if_pos hr, .inl rfl, trivial⟩
    · exact ⟨[.tick], _, if_neg hr, .inr ⟨rfl, rfl⟩,
        proper_passActs hclosed _ (sound_act hl.sound .tick) hl.quiet _⟩
  · exact ⟨[], _, rfl, .inl rfl, proper_acts hclosed hl hop hsets⟩

/-- What holds where an act stands in an operation. -/
theorem proper_within (hclosed : Status.Closed sets) (hl : s.level.AtRest) {op : Operation}
    (hsets : op.Sets sets) {xs ys : List Act} {a : Act} (hacts : op.acts s = xs ++ a :: ys)
    (ha : a ≠ .tick) : (s.actAll xs).Queued sets ∧ (s.actAll xs).Proper sets (a :: ys) := by
  obtain ⟨front, rest, heq, hfront, hproper⟩ := exists_proper_acts hclosed hl hsets
  rw [hacts] at heq
  rcases hfront with rfl | ⟨-, rfl⟩
  · rw [List.nil_append] at heq
    rw [actAll_nil, ← heq, proper_append] at hproper
    exact ⟨queued_actAll hclosed hl.sound (.of_quiet hl.quiet) hproper.1, hproper.2⟩
  · cases xs with
    | nil => exact absurd (List.cons.inj heq).1 ha
    | cons b xs =>
      rw [List.cons_append, List.singleton_append, List.cons.injEq] at heq
      obtain ⟨rfl, hrest⟩ := heq
      rw [← hrest, proper_append] at hproper
      have hquiet : (s.act .tick).level.Quiet := hl.quiet
      have hqueued := queued_actAll hclosed (sound_act hl.sound .tick) (.of_quiet hquiet) hproper.1
      exact ⟨hqueued, hproper.2⟩

end Operation

/-! ## Nobody is left out -/

namespace Simulation

variable {ω : Type}

/-- Every instance has taken its turn in this tick, except for those in a list and new ones. -/
def Stamped (s : Simulation ω) (rest : List Handle) : Prop :=
  ∀ h i, s.level.instance? h = some i →
    i.lastTick = s.level.tick ∨ h ∈ rest ∨ h ∈ s.level.ready

section Stamped

variable {s : Simulation ω} {rest : List Handle}

theorem stamped_dropReady {h : Handle} {tail : List Handle} (hr : s.level.ready = h :: tail)
    (hs : s.Stamped rest) : s.dropReady.Stamped (h :: rest) := by
  intro k j hj
  rcases hs k j hj with hk | hk | hk
  · exact .inl hk
  · exact .inr (.inl (List.mem_cons_of_mem _ hk))
  · rw [hr] at hk
    rcases List.mem_cons.mp hk with rfl | hk
    · exact .inr (.inl List.mem_cons_self)
    · refine .inr (.inr ?_)
      show k ∈ s.level.ready.tail
      rwa [hr]

variable [Host ω] (hl : s.level.Sound)
include hl

/-- Who is in the list or new stays so in an act, unless it takes its turn or is put off. -/
theorem stamped_act {rest' : List Handle} (hs : s.Stamped rest) {a : Act}
    (htick : a ≠ .tick) (hdefers : a.defers = false)
    (hleft : ∀ k, k ∈ rest ∨ k ∈ s.level.ready → (a = .turn k ∨ a = .postpone k) ∨
      k ∈ rest' ∨ k ∈ (s.act a).level.ready) : (s.act a).Stamped rest' := by
  intro k j hj
  rw [(staysInTick_act s htick).tick]
  rcases (step_act s a).origin hl hj with ⟨i, hi, hfate⟩ | ⟨-, -, hready⟩
  · rw [hfate.lastTick]
    split
    · exact .inl rfl
    · rename_i hother
      exact (hs k i hi).imp_right fun hk => (hleft k hk).resolve_left hother
  · -- It is new, and due for its first turn.
    rw [hready, hdefers]
    exact .inr (.inr (by simp))

theorem stamped_keep (hs : s.Stamped rest) {a : Act} (htick : a ≠ .tick)
    (hdefers : a.defers = false) (hqueue : a.unqueues = false) : (s.act a).Stamped rest :=
  stamped_act hl hs htick hdefers fun _ hk =>
    .inr (hk.imp_right fun hmem => (step_act s a).ready_subset hl hqueue hmem)

theorem stamped_route (hs : s.Stamped rest) (r : Request) :
    (s.route r).2.Stamped rest :=
  stamped_keep hl hs (a := .route r) (by simp) rfl rfl

theorem stamped_postpone {h : Handle} {tail : List Handle}
    (hr : s.level.ready = h :: tail) (hs : s.Stamped rest) :
    (s.dropReady.postpone h).Stamped rest := by
  refine stamped_act hl hs (a := .postpone h) (by simp) rfl fun k hk => ?_
  have htail : (s.act (.postpone h)).level.ready = tail := congrArg List.tail hr
  rw [htail]
  rw [hr, List.mem_cons] at hk
  rcases hk with hk | rfl | hk
  · exact .inr (.inl hk)
  · exact .inl (.inr rfl)
  · exact .inr (.inr hk)

theorem stamped_turn {h : Handle} (hs : s.Stamped (h :: rest)) :
    (s.turn h).Stamped rest := by
  refine stamped_act hl hs (a := .turn h) (by simp) rfl fun k hk => ?_
  rw [List.mem_cons] at hk
  rcases hk with (rfl | hk) | hk
  · exact .inl (.inl rfl)
  · exact .inr (.inl hk)
  · exact .inr (.inr ((step_act s (.turn h)).ready_subset hl rfl hk))

theorem stamped_visit {h : Handle} (hs : s.Stamped (h :: rest)) :
    (s.visit h).Stamped rest := by
  rw [← actAll_visitActs]
  unfold visitActs
  have hdrop : (∀ i, s.level.instance? h = some i → i.lastTick = s.level.tick) →
      s.Stamped rest := by
    intro hlast k j hj
    rcases hs k j hj with h | h | h
    · exact .inl h
    · rcases List.mem_cons.mp h with rfl | h
      · exact .inl (hlast j hj)
      · exact .inr (.inl h)
    · exact .inr (.inr h)
  cases hi : s.level.instance? h with
  | none => exact hdrop fun i h => absurd (hi.symm.trans h) (by simp)
  | some i =>
    dsimp only
    split
    · split
      · exact stamped_keep (sound_act hl (.turn h)) (stamped_turn hl hs) (a := .remove h) (by simp)
          rfl rfl
      · exact stamped_turn hl hs
    · rename_i hdue
      refine hdrop fun j hj => ?_
      rw [hi] at hj
      rw [← Option.some.inj hj]
      simp only [isDue, Bool.or_eq_true, not_or] at hdue
      simpa using hdue.1

theorem stamped_reap (hs : s.Stamped rest) : s.reap.Stamped rest := by
  have hkeep (t : Simulation ω) (ht : t.level.Sound ∧ t.Stamped rest) (a : Act)
      (ha : a ∈ s.reapActs) : (t.act a).level.Sound ∧ (t.act a).Stamped rest := by
    refine ⟨sound_act ht.1 a, ?_⟩
    rcases mem_reapActs ha with rfl | ⟨h, rfl⟩ <;>
      exact stamped_keep ht.1 ht.2 (by simp) rfl rfl
  rw [← actAll_reapActs]
  exact (List.foldlRecOn (motive := fun t => t.level.Sound ∧ t.Stamped rest) s.reapActs act
    ⟨hl, hs⟩ hkeep).2

theorem stamped_settle (left : Nat) (hs : s.Stamped rest) :
    (s.settle left).2.Stamped rest := by
  fun_induction settle left s with
  | case1 left s r tail hp _ ih =>
    exact ih (sound_act (sound_act hl .takeRequest) (.route r))
      (stamped_route (sound_act hl .takeRequest) hs r)
  | case2 left s hp hr => exact stamped_reap hl hs
  | case3 s hp h tail hr _ ih =>
    exact ih (sound_act hl (.postpone h)) (stamped_postpone hl hr hs)
  | case4 s hp h tail hr left ih =>
    have hd : s.dropReady.level.Sound := sound_act hl .takeReady
    exact ih (sound_visit hd h) (stamped_visit hd (stamped_dropReady hr hs))

theorem stamped_pass {handles : List Handle} (hs : s.Stamped handles) :
    (s.pass handles).Stamped [] := by
  refine (pass_induct (P := fun rest t => t.level.Sound ∧ t.Stamped rest) ⟨hl, hs⟩ ?_).2
  rintro h rest left t ⟨htl, ht⟩
  have hv := sound_visit htl h
  exact ⟨sound_settle hv left, stamped_settle hv left (stamped_visit htl ht)⟩

/-- After a tick every instance has taken its turn in it, or was put off. -/
theorem stamped_tick (hr : s.level.isReplica = false) {h : Handle}
    {i : Instance} (hq : s.level.Quiet) (hi : s.tick.level.instance? h = some i) :
    i.lastTick = s.tick.level.tick := by
  have hquiet : s.tick.level.Quiet := quiet_run hq .tick
  have hstamped : s.tick.Stamped [] := by
    unfold tick
    rw [if_neg (by simp [hr])]
    refine stamped_pass (sound_act hl .tick) fun k j hj => ?_
    by_cases hlast : j.lastTick = s.level.tick + 1
    · exact .inl hlast
    · refine .inr (.inl (List.mem_map.mpr ⟨(k, j), List.mem_filter.mpr ⟨?_, ?_⟩, rfl⟩))
      · exact (Roster.mem_entries_iff hl.roster).mpr hj
      · simpa using hlast
  rcases hstamped h i hi with h | h | h
  · exact h
  · exact absurd h List.not_mem_nil
  · rw [hquiet.2] at h
    exact absurd h List.not_mem_nil

end Stamped

end Simulation

end LevelScript
