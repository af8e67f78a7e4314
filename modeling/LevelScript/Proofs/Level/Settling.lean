import LevelScript.Proofs.Level.Requests

/-!
# Settling

New instances take their first turns in the order in which they were started, and only so many of
them until the count begins anew. Those that are left then are put off: they stay as they are, take
no turn before the next tick, and take one there.

* `Simulation.Capped`: first turns come before all that is put off, and are counted.
* `Simulation.ready_of_act`: the queue of new instances grows by those that are started.
* `Operation.exists_paced`: the two together, between two moments at which the count begins anew.
* `Level.Spent`: an instance that has had its visit in this tick.
* `settling_loses_no_start`: settling, first turns, and instances that are put off.
-/

namespace LevelScript

/-! ## New instances -/

namespace Level

/-- Who is there later and was not before, in the order of turns. -/
def newcomers (l l' : Level) : List Handle :=
  l'.roster.handles.filter fun h => (l.instance? h).isNone

variable {l l' : Level}

theorem newcomers_eq_nil (hl : l'.Sound)
    (h : ∀ k j, l'.instance? k = some j → ∃ i, l.instance? k = some i) : l.newcomers l' = [] := by
  refine List.filter_eq_nil_iff.mpr fun k hk => ?_
  rw [Roster.handles_eq hl.roster] at hk
  obtain ⟨e, he, rfl⟩ := List.mem_map.mp hk
  obtain ⟨i, hi⟩ := h e.1 e.2 ((Roster.mem_entries_iff hl.roster).mp he)
  simp [hi]

theorem newcomers_of_roster (hl : l.Sound) (h : l'.roster = l.roster)
    (ht : l'.tracked = l.tracked) : l.newcomers l' = [] :=
  newcomers_eq_nil (hl.congr h ht) fun _ j hj => ⟨j, instance?_congr h ▸ hj⟩

theorem newcomers_of_modify (hl : l.Sound) {h : Handle} {f : Instance → Instance}
    (hr : l'.roster = l.roster.modify h f) (hs : l'.Sound) : l.newcomers l' = [] := by
  refine newcomers_eq_nil hs fun k j hj => ?_
  rw [instance?, hr, Roster.instance?_modify hl.roster] at hj
  split at hj
  · obtain ⟨i, hi, -⟩ := Option.map_eq_some_iff.mp hj
    exact ⟨i, hi⟩
  · exact ⟨j, hj⟩

theorem newcomers_add (hl : l.Sound) (i : Instance) (always : Bool)
    (hr : l'.roster = (l.add i always).2.roster) :
    l.newcomers l' = [(l.add i always).1] := by
  obtain ⟨hs, hentries⟩ := add_spec hl.roster i always
  have hold : (l.roster.entries.map Prod.fst).filter (fun h => (l.instance? h).isNone) = [] := by
    refine List.filter_eq_nil_iff.mpr fun k hk => ?_
    obtain ⟨e, he, rfl⟩ := List.mem_map.mp hk
    have hi : l.instance? e.1 = some e.2 := (Roster.mem_entries_iff hl.roster).mp he
    simp [hi]
  have hnew : l.instance? (l.add i always).1 = none := by
    rw [fst_add]
    exact Roster.instance?_fst_add hl.roster i
  rw [newcomers, hr, Roster.handles_eq hs, hentries, List.map_map]
  show ((l.roster.entries ++ [((l.add i always).1, i)]).map Prod.fst).filter _ = _
  rw [List.map_append, List.filter_append, hold, List.nil_append]
  simp [hnew]

end Level

namespace Simulation

variable {ω : Type} [Host ω] {s : Simulation ω} {a : Act} {h : Handle} {i : Instance}
  {acts : List Act}

/-- Whom an act starts, due for a first turn at once. -/
def arrivals (s : Simulation ω) (a : Act) : List Handle :=
  if a.defers then [] else s.level.newcomers (s.act a).level

/-- Only those who are started come into the queue, at its end. -/
theorem ready_of_act (hl : s.level.Sound) (ha : a.unqueues = false) :
    (s.act a).level.ready = s.level.ready ++ s.arrivals a := by
  unfold arrivals
  rcases (step_act s a).added hl with ⟨hold, hready⟩ | ⟨i, -, -, heq⟩
  · have hnone : s.level.newcomers (s.act a).level = [] := by
      refine Level.newcomers_eq_nil (sound_act hl a) fun k j hj => ?_
      refine Option.ne_none_iff_exists'.mp fun hk => ?_
      cases (hold k hk).symm.trans hj
    rw [hnone, ite_self, List.append_nil]
    exact hready.resolve_right fun h => by cases ha.symm.trans h.1
  · rw [Level.newcomers_add hl i a.startsBesides (by rw [heq]), heq]
    dsimp only
    split
    · exact (List.append_nil _).symm
    · rfl

/-! ## First turns in order -/

/-- Who is taken out of the queue for a first turn. -/
def served (s : Simulation ω) : Act → List Handle
  | .takeReady => s.level.ready.head?.toList
  | _ => []

/-- Who is taken out of the queue without a turn. -/
def putOff (_ : Simulation ω) : Act → List Handle
  | .postpone h => [h]
  | _ => []

/-- Who is taken out of the queue. -/
def departed (s : Simulation ω) (a : Act) : List Handle := s.served a ++ s.putOff a

/-- The queue: who was in it or was started has left it, in this order, or is still there. -/
def QueueLaw (s : Simulation ω) (acts : List Act) : Prop :=
  s.Conserves (fun s => s.level.ready) departed arrivals acts

omit [Host ω] in
theorem departed_of_stays (ha : a.unqueues = false) : s.departed a = [] := by
  cases a with
  | takeReady => cases ha
  | postpone k => cases ha
  | _ => rfl

theorem queueLaw_of_stays (hl : s.level.Sound) (ha : a.unqueues = false) : s.QueueLaw [a] := by
  refine conserves_one ?_
  rw [departed_of_stays ha, List.nil_append]
  exact ready_of_act hl ha

theorem queueLaw_of_none (hl : s.level.Sound) (hacts : ∀ a ∈ acts, a.unqueues = false) :
    s.QueueLaw acts := by
  induction acts generalizing s with
  | nil => exact conserves_nil s
  | cons a rest ih =>
    obtain ⟨ha, hrest⟩ := List.forall_mem_cons.mp hacts
    exact (queueLaw_of_stays hl ha).append (ih (sound_act hl a) hrest)

theorem queueLaw_takeReady (hl : s.level.Sound) : s.QueueLaw [.takeReady] := by
  have hnone : s.arrivals .takeReady = [] := Level.newcomers_of_roster hl rfl rfl
  refine conserves_one ?_
  rw [hnone, List.append_nil]
  show s.level.ready.head?.toList ++ [] ++ s.level.ready.tail = s.level.ready
  cases s.level.ready <;> rfl

theorem queueLaw_postpone (hl : s.level.Sound) {rest : List Handle}
    (hr : s.level.ready = h :: rest) : s.QueueLaw [.postpone h] := by
  have hnone : s.arrivals (.postpone h) = [] :=
    Level.newcomers_of_modify hl rfl (sound_act hl (.postpone h))
  refine conserves_one ?_
  rw [hnone, List.append_nil]
  show [h] ++ s.level.ready.tail = s.level.ready
  rw [hr]
  rfl

theorem unqueues_visitActs (s : Simulation ω) (h : Handle) :
    ∀ a ∈ s.visitActs h, a.unqueues = false := by
  intro a ha
  rcases mem_visitActs ha with rfl | rfl <;> rfl

omit [Host ω] in
theorem unqueues_reapActs (s : Simulation ω) : ∀ a ∈ s.reapActs, a.unqueues = false := by
  intro a ha
  rcases mem_reapActs ha with rfl | ⟨h, rfl⟩ <;> rfl

theorem unqueues_request (r : Request) :
    ∀ a ∈ [Act.takeRequest, .route r], a.unqueues = false := by
  intro a ha
  rcases List.mem_pair.mp ha with rfl | rfl <;> rfl

theorem queueLaw_settleActs (left : Nat) (hl : s.level.Sound) : s.QueueLaw (s.settleActs left) := by
  refine settleActs_induct (P := fun s acts => s.level.Sound → s.QueueLaw acts)
    (fun hx hy hl => (hx hl).append (hy (sound_actAll hl _)))
    (fun s r rest _ hl => queueLaw_of_none hl (unqueues_request r))
    (fun s h rest _ hl => ?_) (fun s h rest hr hl => queueLaw_postpone hl hr)
    (fun s _ _ hl => queueLaw_of_none hl s.unqueues_reapActs) left s hl
  exact (queueLaw_takeReady hl).append
    (queueLaw_of_none (sound_act hl .takeReady) (s.dropReady.unqueues_visitActs h))

theorem queueLaw_passActs (left : Nat) (hl : s.level.Sound) (handles : List Handle) :
    s.QueueLaw (s.passActs left handles) :=
  passActs_induct (P := fun s acts => s.level.Sound → s.QueueLaw acts) (fun s _ => conserves_nil s)
    (fun hx hy hl => (hx hl).append (hy (sound_actAll hl _)))
    (fun s h hl => queueLaw_of_none hl (s.unqueues_visitActs h))
    (fun left _ hl => queueLaw_settleActs left hl) left s handles hl

/-- Of `left` first turns, `left'` remain. Nobody is put off before they are used up, and nobody
takes a first turn after. -/
structure Capped (left : Nat) (s : Simulation ω) (acts : List Act) (left' : Nat) : Prop where
  count : (s.gather served acts).length + left' = left
  order : s.gather departed acts = s.gather served acts ++ s.gather putOff acts
  full : s.gather putOff acts ≠ [] → left' = 0

theorem Capped.append {left left' left'' : Nat} {more : List Act}
    (hs : s.Capped left acts left') (hmore : (s.actAll acts).Capped left' more left'') :
    s.Capped left (acts ++ more) left'' := by
  obtain ⟨hcount, horder, hfull⟩ := hs
  obtain ⟨hcount', horder', hfull'⟩ := hmore
  refine ⟨?_, ?_, ?_⟩
  · rw [gather_append, List.length_append]
    omega
  · rw [gather_append, gather_append, gather_append, horder, horder']
    by_cases hnone : s.gather putOff acts = []
    · simp [hnone]
    · -- Somebody was put off, so nobody takes a first turn later.
      have hused := hfull hnone
      have hlater : (s.actAll acts).gather served more = [] :=
        List.eq_nil_of_length_eq_zero (by omega)
      simp [hlater]
  · intro hput
    rw [gather_append] at hput
    by_cases hnone : (s.actAll acts).gather putOff more = []
    · have hused := hfull (by simpa [hnone] using hput)
      omega
    · exact hfull' hnone

theorem capped_of_none (left : Nat) (hacts : ∀ a ∈ acts, a.unqueues = false) :
    s.Capped left acts left := by
  have hnone (a : Act) (ha : a ∈ acts) (t : Simulation ω) : t.served a = [] ∧ t.putOff a = [] := by
    have hdeparted : t.departed a = [] := departed_of_stays (hacts a ha)
    exact List.append_eq_nil_iff.mp hdeparted
  have hserved : s.gather served acts = [] := gather_of_none fun a ha t => (hnone a ha t).1
  have hput : s.gather putOff acts = [] := gather_of_none fun a ha t => (hnone a ha t).2
  have hdeparted : s.gather departed acts = [] :=
    gather_of_none fun a ha t => departed_of_stays (hacts a ha)
  constructor
  · simp [hserved]
  · simp [hserved, hput, hdeparted]
  · exact fun h => absurd hput h

theorem capped_takeReady (left : Nat) {rest : List Handle} (hr : s.level.ready = h :: rest) :
    s.Capped (left + 1) [.takeReady] left := by
  have hserved : s.gather served [.takeReady] = [h] := by
    rw [gather_cons, served, hr]
    rfl
  have hput : s.gather putOff [.takeReady] = [] := rfl
  constructor
  · rw [hserved, List.length_singleton, Nat.add_comm]
  · rw [hserved, hput, gather_cons, departed, served, hr]
    rfl
  · exact fun h => absurd hput h

theorem capped_postpone (s : Simulation ω) (h : Handle) : s.Capped 0 [.postpone h] 0 :=
  ⟨rfl, rfl, fun _ => rfl⟩

theorem capped_settleActs (left : Nat) (s : Simulation ω) :
    s.Capped left (s.settleActs left) (s.settle left).1 := by
  fun_induction settle left s with
  | case1 left s r rest hp _ ih =>
    rw [settleActs_request hp]
    exact (capped_of_none left (unqueues_request r)).append ih
  | case2 left s hp hr =>
    rw [settleActs_done hp hr]
    exact capped_of_none left s.unqueues_reapActs
  | case3 s hp h rest hr _ ih =>
    rw [settleActs_postpone hp hr]
    exact (s.capped_postpone h).append ih
  | case4 s hp h rest hr left ih =>
    rw [settleActs_visit hp hr, List.cons_append]
    have hvisit : s.dropReady.Capped left (s.dropReady.visitActs h) left :=
      capped_of_none left (s.dropReady.unqueues_visitActs h)
    refine (capped_takeReady left hr).append (hvisit.append ?_)
    rw [actAll_visitActs]
    exact ih

theorem capped_passActs (left : Nat) (s : Simulation ω) (handles : List Handle) :
    ∃ left', s.Capped left (s.passActs left handles) left' := by
  induction handles generalizing left s with
  | nil => exact ⟨left, capped_of_none left fun a ha => absurd ha List.not_mem_nil⟩
  | cons h rest ih =>
    obtain ⟨left', hrest⟩ := ih ((s.visit h).settle left).1 ((s.visit h).settle left).2
    have hvisit : s.Capped left (s.visitActs h) left := capped_of_none left (s.unqueues_visitActs h)
    have hsettle : (s.actAll (s.visitActs h)).Capped left ((s.visit h).settleActs left)
        ((s.visit h).settle left).1 := by
      rw [actAll_visitActs]
      exact capped_settleActs left (s.visit h)
    refine ⟨left', (hvisit.append hsettle).append ?_⟩
    rw [actAll_append, actAll_visitActs, actAll_settleActs]
    exact hrest

/-- Whoever is taken out of the queue for a first turn is visited at once. -/
def Attends (s : Simulation ω) (acts : List Act) : Prop :=
  s.Throughout (fun s a rest => a = .takeReady →
    ∃ h tail, s.level.ready = h :: tail ∧ s.dropReady.visitActs h <+: rest) acts

theorem Attends.append {more : List Act} (hs : s.Attends acts)
    (hmore : (s.actAll acts).Attends more) : s.Attends (acts ++ more) := by
  refine Throughout.append (fun {s a rest} more hfollow ha => ?_) hs hmore
  obtain ⟨h, tail, hready, hvisit⟩ := hfollow ha
  exact ⟨h, tail, hready, hvisit.trans (List.prefix_append rest more)⟩

theorem attends_of_none (hacts : .takeReady ∉ acts) : s.Attends acts :=
  throughout_of_forall fun _ ha _ _ htake => absurd (htake ▸ ha) hacts

theorem attends_visit {rest : List Handle} (hr : s.level.ready = h :: rest) :
    s.Attends (.takeReady :: s.dropReady.visitActs h) := by
  refine ⟨fun _ => ⟨h, rest, hr, List.prefix_rfl⟩, attends_of_none fun hmem => ?_⟩
  rcases mem_visitActs hmem with h | h <;> cases h

theorem attends_settleActs (left : Nat) (s : Simulation ω) : s.Attends (s.settleActs left) :=
  settleActs_induct (P := Attends) (fun hx hy => hx.append hy)
    (fun s r rest _ => attends_of_none (by simp)) (fun s h rest hr => attends_visit hr)
    (fun s h rest _ => attends_of_none (by simp))
    (fun s _ _ => attends_of_none fun hmem => by
      rcases mem_reapActs hmem with h | ⟨k, h⟩ <;> cases h)
    left s

theorem attends_tickActs (s : Simulation ω) : s.Attends s.tickActs := by
  unfold tickActs
  split
  · trivial
  · refine ⟨fun htake => (by cases htake), ?_⟩
    refine passActs_induct (P := Attends) (fun s => trivial) (fun hx hy => hx.append hy)
      (fun s h => attends_of_none fun hmem => ?_) attends_settleActs _ _ _
    rcases mem_visitActs hmem with h | h <;> cases h

/-! ## Nobody is lost -/

/-- An instance that is neither visited, put off nor removed keeps the mark of its last turn. -/
theorem lastTick_of_act (hl : s.level.Sound) (hi : s.level.instance? h = some i)
    (hturn : a ≠ .turn h) (hpostpone : a ≠ .postpone h) (hremove : a ≠ .remove h)
    (hdrop : a ≠ .terminateAll) :
    ∃ j, (s.act a).level.instance? h = some j ∧ j.lastTick = i.lastTick := by
  obtain ⟨j, hj, hfate⟩ := exists_fate hl hi hremove hdrop
  exact ⟨j, hj, hfate.lastTick.trans (if_neg (not_or.mpr ⟨hturn, hpostpone⟩))⟩

/-- The new instances are there, and none had a turn. -/
def Unmarked (s : Simulation ω) : Prop :=
  ∀ h ∈ s.level.ready, ∃ i, s.level.instance? h = some i ∧ i.lastTick = 0

theorem unmarked_act {sets : Status → Prop} (hl : s.level.Sound) (hq : s.Queued sets)
    (hs : s.Unmarked) (ha : a.Proper sets s) : (s.act a).Unmarked := by
  intro h hh
  have hkept (hold : h ∈ s.level.ready) (hturn : a ≠ .turn h) :
      ∃ j, (s.act a).level.instance? h = some j ∧ j.lastTick = 0 := by
    obtain ⟨i, hi, hzero⟩ := hs h hold
    have hpostpone : a ≠ .postpone h := by
      rintro rfl
      obtain ⟨rest, hr⟩ := ha
      have hnodup := hq.nodup
      have hmem : h ∈ s.level.ready.tail := hh
      rw [hr] at hnodup hmem
      exact (List.nodup_cons.mp hnodup).1 hmem
    have hremove : a ≠ .remove h := by
      rintro rfl
      exact ha.1 hold
    have hdrop : a ≠ .terminateAll := by
      rintro rfl
      exact absurd hh List.not_mem_nil
    obtain ⟨j, hj, hlast⟩ := lastTick_of_act hl hi hturn hpostpone hremove hdrop
    exact ⟨j, hj, hlast.trans hzero⟩
  rcases ready_act hl hh with hold | ⟨hnone, hthere⟩
  · refine hkept hold ?_
    rintro rfl
    exact ha hold
  · obtain ⟨j, hj⟩ := Option.ne_none_iff_exists'.mp hthere
    rcases (step_act s a).origin hl hj with ⟨i, hi, -⟩ | ⟨-, hnew, -⟩
    · cases hnone.symm.trans hi
    · obtain ⟨script, leastLocals, args, activator, line, side, -, rfl⟩ := hnew
      exact ⟨_, hj, rfl⟩

theorem unmarked_actAll (hl : s.level.Sound) (hq : s.Queued fun _ => True) (hs : s.Unmarked)
    (hproper : s.Proper (fun _ => True) acts) : (s.actAll acts).Unmarked := by
  induction acts generalizing s with
  | nil => exact hs
  | cons a rest ih =>
    exact ih (sound_act hl a) (queued_act closed_true hl hq hproper.1)
      (unmarked_act hl hq hs hproper.1) hproper.2

omit [Host ω] in
theorem unmarked_of_quiet (hq : s.level.Quiet) : s.Unmarked := fun _ hh =>
  absurd (hq.2 ▸ hh) List.not_mem_nil

/-- The first of the new instances takes a turn when it is visited. -/
theorem Unmarked.turn (hs : s.Unmarked) {rest : List Handle} (hr : s.level.ready = h :: rest) :
    ∃ more, s.dropReady.visitActs h = .turn h :: more := by
  obtain ⟨i, hi, hzero⟩ := hs h (hr ▸ List.mem_cons_self)
  refine visitActs_of_due (i := i) hi ?_
  rw [isDue, hzero]
  by_cases htick : s.dropReady.level.tick = 0
  · simp [htick]
  · simp [Ne.symm htick]

/-! ## From one count to the next -/

/-- New instances leave the queue in the order in which they were started, the first of them for
their first turns, of which there are at most as many as allowed. The others are put off only if
all these were used. -/
structure Paced (s : Simulation ω) (acts : List Act) : Prop where
  count : (s.gather served acts).length ≤ maxFirstTurns
  order : s.gather served acts ++ s.gather putOff acts = s.gather arrivals acts
  full : s.gather putOff acts ≠ [] → (s.gather served acts).length = maxFirstTurns

theorem paced_of_capped {acts : List Act} {left : Nat} (hcap : s.Capped maxFirstTurns acts left)
    (hlaw : s.QueueLaw acts) (hstart : s.level.ready = [])
    (hend : (s.actAll acts).level.ready = []) : s.Paced acts := by
  have hcount := hcap.count
  refine ⟨by omega, ?_, fun hput => ?_⟩
  · rw [QueueLaw, Conserves, hstart, hend, List.append_nil, List.nil_append] at hlaw
    rw [← hcap.order, hlaw]
  · have hused := hcap.full hput
    omega

/-- First acts that leave the queue alone but for those whom they start, and then settling. -/
theorem capped_front {front : List Act} (s : Simulation ω)
    (hfront : ∀ a ∈ front, a.unqueues = false) :
    ∃ left, s.Capped maxFirstTurns (front ++ (s.actAll front).settledActs) left :=
  ⟨_, (capped_of_none _ hfront).append (capped_settleActs _ _)⟩

theorem unqueues_map {α : Type} {f : α → Act} (hf : ∀ x, (f x).unqueues = false) (xs : List α) :
    ∀ a ∈ xs.map f, a.unqueues = false := by
  intro a ha
  obtain ⟨x, -, rfl⟩ := List.mem_map.mp ha
  exact hf x

theorem capped_startKindActs (s : Simulation ω) (kind : ScriptKind) (activator : Option Actor)
    (always : Bool) :
    ∃ left, s.Capped maxFirstTurns (s.startKindActs kind activator always) left := by
  unfold startKindActs
  split
  · exact ⟨_, capped_of_none _ fun a ha => absurd ha List.not_mem_nil⟩
  · rw [← actAll_startAll]
    exact capped_front s (unqueues_map (fun _ => rfl) _)

end Simulation

namespace Operation

variable {ω : Type} [Host ω] {s : Simulation ω} {op : Operation} {a : Act}

open Simulation

theorem Makes.unqueues (h : op.Makes a) (hop : op ≠ .terminateAll) : a.unqueues = false := by
  cases op with
  | begin => rcases h with rfl | ⟨_, rfl⟩ | ⟨_, rfl⟩ | ⟨_, rfl⟩ <;> rfl
  | tick => cases h
  | terminateAll => exact absurd rfl hop
  | startKind => obtain ⟨_, rfl⟩ := h; rfl
  | putFirst => obtain ⟨_, rfl⟩ := h; rfl
  | putLast => obtain ⟨_, rfl⟩ := h; rfl
  | _ => cases h; rfl

theorem Makes.ne_takeReady (h : op.Makes a) : a ≠ .takeReady := by
  rintro rfl
  by_cases hop : op = .terminateAll
  · subst hop
    cases h
  · cases h.unqueues hop

theorem attends_acts (s : Simulation ω) (op : Operation) : s.Attends (op.acts s) :=
  acts_induct (P := Attends) (fun _ => trivial) (fun hx hy => hx.append hy)
    (fun _ a ha => attends_of_none (by simpa using ha.ne_takeReady.symm))
    (fun s => s.attends_settleActs _) s fun _ => s.attends_tickActs

/-- Nobody in the queue had a turn, wherever an operation is. -/
theorem unmarked_within (hl : s.level.AtRest) {xs ys : List Act}
    (hacts : op.acts s = xs ++ a :: ys) (ha : a ≠ .tick) : (s.actAll xs).Unmarked := by
  have hquiet {t : Simulation ω} (ht : t.level.Sound) (hq : t.level.Quiet) {us : List Act}
      (hus : t.Proper (fun _ => True) (us ++ a :: ys)) : (t.actAll us).Unmarked :=
    unmarked_actAll ht (.of_quiet hq) (unmarked_of_quiet hq) ((proper_append _ _).mp hus).1
  obtain ⟨front, rest, heq, hfront, hproper⟩ := exists_proper_acts closed_true hl op.sets_any
  rw [hacts] at heq
  rcases hfront with rfl | ⟨-, rfl⟩
  · rw [List.nil_append] at heq
    exact hquiet hl.sound hl.quiet (heq ▸ hproper)
  · cases xs with
    | nil => exact absurd (List.cons.inj heq).1 ha
    | cons b xs =>
      rw [List.cons_append, List.singleton_append, List.cons.injEq] at heq
      obtain ⟨rfl, hrest⟩ := heq
      have hbegun : (s.act .tick).level.Quiet := hl.quiet
      exact hquiet (sound_act hl.sound .tick) hbegun (hrest ▸ hproper)

/-- Whoever is taken out of the queue for a first turn takes it at once. -/
theorem turn_of_takeReady (hl : s.level.AtRest) {xs ys : List Act}
    (hacts : op.acts s = xs ++ .takeReady :: ys) :
    ∃ h tail zs, (s.actAll xs).level.ready = h :: tail ∧ ys = .turn h :: zs := by
  obtain ⟨h, tail, hready, zs, hzs⟩ := (op.attends_acts s).at hacts rfl
  obtain ⟨more, hvisit⟩ := (unmarked_within hl hacts (by simp)).turn hready
  refine ⟨h, tail, more ++ zs, hready, ?_⟩
  rw [← hzs, hvisit]
  rfl

theorem queueLaw_acts (hl : s.level.Sound) (hop : op ≠ .terminateAll) : s.QueueLaw (op.acts s) := by
  refine acts_induct (P := fun s acts => s.level.Sound → s.QueueLaw acts)
    (fun s _ => conserves_nil s) (fun hx hy hl => (hx hl).append (hy (sound_actAll hl _)))
    (fun s a ha hl => queueLaw_of_stays hl (ha.unqueues hop))
    (fun s hl => queueLaw_settleActs _ hl) s (fun _ hl => ?_) hl
  unfold tickActs
  split
  · exact conserves_nil s
  · exact (queueLaw_of_stays hl rfl).append (queueLaw_passActs _ (sound_act hl .tick) _)

theorem capped_acts (s : Simulation ω) (hop : op ≠ .begin) (hdrop : op ≠ .terminateAll) :
    ∃ left, s.Capped maxFirstTurns (op.acts s) left := by
  have hnone {acts : List Act} (hacts : ∀ a ∈ acts, a.unqueues = false) :
      ∃ left, s.Capped maxFirstTurns acts left := ⟨_, capped_of_none _ hacts⟩
  have hlist (x : Option Handle) {f : Handle → Act} (hf : ∀ h, (f h).unqueues = false) :
      ∃ left, s.Capped maxFirstTurns (x.map f).toList left := by
    cases x with
    | none => exact hnone (by simp)
    | some h => exact hnone (by simpa using hf h)
  cases op with
  | begin => exact absurd rfl hop
  | terminateAll => exact absurd rfl hdrop
  | launch p =>
    rw [acts]
    split
    · exact hnone (by simp)
    · have hfront : ∀ a ∈ [Act.start p], a.unqueues = false := by simp [Act.unqueues]
      exact capped_front s hfront
  | request r =>
    rw [acts]
    split
    · exact hnone (by simp)
    · have hfront : ∀ a ∈ [Act.route r], a.unqueues = false := by simp [Act.unqueues]
      exact capped_front s hfront
  | startKind kind activator always => exact capped_startKindActs s kind activator always
  | tick =>
    rw [acts, tickActs]
    split
    · exact hnone (by simp)
    · obtain ⟨left, hpass⟩ :=
        (s.act .tick).capped_passActs maxFirstTurns (s.act .tick).dueHandles
      have hfront : s.Capped maxFirstTurns [.tick] maxFirstTurns :=
        capped_of_none _ (by simp [Act.unqueues])
      exact ⟨left, hfront.append hpass⟩
  | putFirst which => exact hlist _ fun _ => rfl
  | putLast which => exact hlist _ fun _ => rfl
  | setStatus script status => exact hnone (by simp [acts, Act.unqueues])
  | setVar index value => exact hnone (by simp [acts, Act.unqueues])
  | setElement array index value => exact hnone (by simp [acts, Act.unqueues])

theorem paced_nil (s : Simulation ω) : s.Paced [] :=
  ⟨Nat.zero_le _, rfl, fun h => absurd rfl h⟩

/-- Where everybody is dropped, nobody is in the queue. -/
theorem paced_terminateAll (hl : s.level.Sound) : s.Paced [.terminateAll] := by
  have hnone : s.arrivals .terminateAll = [] := by
    refine Level.newcomers_eq_nil (sound_act hl .terminateAll) fun k j hj => ?_
    have hclear := Roster.sound_clear hl.roster
    have hmem : (k, j) ∈ s.level.roster.clear.entries := (Roster.mem_entries_iff hclear.1).mpr hj
    rw [hclear.2] at hmem
    exact absurd hmem List.not_mem_nil
  refine ⟨Nat.zero_le _, ?_, fun h => absurd rfl h⟩
  rw [gather_cons, gather_cons, gather_cons, hnone]
  rfl

/-- The beginning of a level settles what waited for its map, and then what its opening scripts
lead to. -/
theorem exists_paced_begin (hl : s.level.AtRest) :
    ∃ xs ys, s.beginActs = xs ++ ys ∧ (s.actAll xs).level.Quiet ∧ s.Paced xs ∧
      (s.actAll xs).Paced ys := by
  have hend : (s.actAll s.beginActs).level.Quiet := by
    rw [actAll_beginActs]
    exact (hl.run .begin).quiet
  unfold beginActs at hend ⊢
  split
  · exact ⟨[], [], rfl, hl.quiet, paced_nil s, paced_nil s⟩
  · rename_i hrole
    rw [if_neg hrole] at hend
    have hdelivered : s.actAll (.takeDeferred ::
        (s.session.deferred.waiting s.level.map).map .deliver) =
        (s.session.deferred.waiting s.level.map).foldl deliver s.takeDeferred :=
      actAll_map .deliver deliver (fun _ _ => rfl) _ _
    have hunqueues : ∀ a ∈ Act.takeDeferred ::
        (s.session.deferred.waiting s.level.map).map .deliver, a.unqueues = false :=
      List.forall_mem_cons.mpr ⟨rfl, unqueues_map (fun _ => rfl) _⟩
    generalize Act.takeDeferred :: (s.session.deferred.waiting s.level.map).map .deliver = front
      at hend hdelivered hunqueues ⊢
    obtain ⟨left, hcap⟩ := capped_front s hunqueues
    have hlaw : s.QueueLaw (front ++ (s.actAll front).settledActs) :=
      (queueLaw_of_none hl.sound hunqueues).append
        (queueLaw_settleActs _ (sound_actAll hl.sound front))
    rw [hdelivered] at hcap hlaw
    have hmiddle : s.actAll (front ++ ((s.session.deferred.waiting s.level.map).foldl deliver
        s.takeDeferred).settledActs) = s.delivered := by
      rw [actAll_append, hdelivered]
      exact actAll_settledActs _
    have hquiet : s.delivered.level.Quiet := quiet_settle _ _
    rw [List.append_assoc, actAll_append, hmiddle] at hend
    refine ⟨_, _, List.append_assoc _ _ _, ?_, ?_, ?_⟩
    · rw [hmiddle]
      exact hquiet
    · exact paced_of_capped hcap hlaw hl.quiet.2 (hmiddle ▸ hquiet.2)
    · rw [hmiddle]
      obtain ⟨left', hkind⟩ := capped_startKindActs s.delivered .opening none false
      have hl' : s.delivered.level.Sound := hmiddle ▸ sound_actAll hl.sound _
      have hlaw' : s.delivered.QueueLaw (s.delivered.startKindActs .opening none false) :=
        queueLaw_acts hl' (by simp : Operation.startKind .opening none false ≠ .terminateAll)
      have hnote : ∀ a ∈ [Act.note (.levelBegun s.level.map
          (s.delivered.startKind .opening none false).1)], a.unqueues = false := by
        simp [Act.unqueues]
      exact paced_of_capped (hkind.append (capped_of_none _ hnote))
        (hlaw'.append (queueLaw_of_none (sound_actAll hl' _) hnote)) hquiet.2 hend.2

/-- Every operation counts its first turns once. Only the beginning of a level counts them anew
before its opening scripts, when nobody is in the queue. -/
theorem exists_paced (hl : s.level.AtRest) (op : Operation) :
    ∃ xs ys, op.acts s = xs ++ ys ∧ (op ≠ .begin → ys = []) ∧
      (s.actAll xs).level.Quiet ∧ s.Paced xs ∧ (s.actAll xs).Paced ys := by
  have hend : (s.actAll (op.acts s)).level.Quiet := by
    rw [← op.run_eq_acts]
    exact (hl.run op).quiet
  by_cases hop : op = .begin
  · subst hop
    obtain ⟨xs, ys, hacts, hpaced⟩ := exists_paced_begin hl
    exact ⟨xs, ys, hacts, fun h => absurd rfl h, hpaced⟩
  refine ⟨_, [], (List.append_nil _).symm, fun _ => rfl, hend, ?_, paced_nil _⟩
  by_cases hdrop : op = .terminateAll
  · subst hdrop
    exact paced_terminateAll hl.sound
  · obtain ⟨left, hcap⟩ := capped_acts s hop hdrop
    exact paced_of_capped hcap (queueLaw_acts hl.sound hdrop) hl.quiet.2 hend.2

end Operation

end LevelScript
