import LevelScript.Proofs.Level.Replay
import LevelScript.Proofs.Level.Waits

/-!
# One advance in a tick

A tick visits instances as long as any is due. Meanwhile instances start, end, are removed, and
their cells are used again; still nobody takes two turns, and those that were there at the start
take theirs in the order they had then.

* `Simulation.Rounds`: the rounds of a tick. `rounds_iff`: there is at most one.
* `lastTick_act`: what an act does to the last tick of an instance that it leaves.
* `turnsOf`: the turns that instances take which are there at the start. A handle stands for such
  an instance until it is removed.
* `Simulation.AdvancesOnce`: everyone takes one turn, in order, or has ended before.
-/

namespace LevelScript

namespace Simulation

variable {ω : Type} [Host ω]

/-! ## Rounds -/

/-- One round: all that are due are visited in turn, each visit followed by what it leads to. -/
def round (left : Nat) (s : Simulation ω) : Nat × Simulation ω :=
  s.dueHandles.foldl (fun (left, s) h => (s.visit h).settle left) (left, s)

/-- Rounds follow each other until nobody is due. -/
inductive Rounds : Nat → Simulation ω → Simulation ω → Prop
  | done {left : Nat} {s : Simulation ω} (h : s.dueHandles = []) : Rounds left s s
  | round {left : Nat} {s t : Simulation ω} (h : s.dueHandles ≠ [])
      (rest : Rounds (s.round left).1 (s.round left).2 t) : Rounds left s t

theorem dueHandles_tick {s : Simulation ω} (hl : s.level.AtRest)
    (hr : s.level.isReplica = false) : s.tick.dueHandles = [] := by
  have hsound : s.tick.level.Sound := (Level.AtRest.run hl .tick).sound
  rw [dueHandles, List.eq_nil_iff_forall_not_mem]
  intro h hh
  obtain ⟨i, hi, hdue⟩ := (Level.handlesWhere_waits hsound.roster _).2 h hh
  rw [bne_iff_ne] at hdue
  exact hdue (stamped_tick hl.sound hr hl.quiet hi)

theorem round_tick (s : Simulation ω) (hr : s.level.isReplica = false) :
    ((s.act .tick).round maxFirstTurns).2 = s.tick := by
  rw [tick, if_neg (by simp [hr])]
  rfl

/-- A tick is all its rounds, and they come to an end. -/
theorem rounds_iff {s : Simulation ω} (hl : s.level.AtRest) (hr : s.level.isReplica = false)
    (t : Simulation ω) : Rounds maxFirstTurns (s.act .tick) t ↔ t = s.tick := by
  have hround := round_tick s hr
  have hdone := dueHandles_tick hl hr
  by_cases hdue : (s.act .tick).dueHandles = []
  · have hsame : s.tick = s.act .tick := by
      rw [← hround, round, hdue]
      rfl
    constructor
    · intro h
      cases h with
      | done => exact hsame.symm
      | round h => exact absurd hdue h
    · rintro rfl
      rw [hsame]
      exact .done hdue
  · constructor
    · intro h
      cases h with
      | done h => exact absurd h hdue
      | round _ rest =>
        rw [hround] at rest
        cases rest with
        | done => rfl
        | round h => exact absurd hdone h
    · rintro rfl
      refine .round hdue ?_
      rw [hround]
      exact .done hdone

/-! ## The acts of a round -/

omit [Host ω] in
/-- The acts of a round. Only an instance that is there and due takes a turn. -/
def InRound (s : Simulation ω) : Act → Prop
  | .takeRequest | .takeReady | .reap | .route _ | .postpone _ | .remove _ => True
  | .turn h => ∃ i, s.level.instance? h = some i ∧ s.isDue i = true
  | _ => False

/-- Every act is one of a round when it is reached. -/
def AllInRound (s : Simulation ω) : List Act → Prop
  | [] => True
  | a :: rest => s.InRound a ∧ (s.act a).AllInRound rest

theorem allInRound_append {s : Simulation ω} (xs ys : List Act) :
    s.AllInRound (xs ++ ys) ↔ s.AllInRound xs ∧ (s.actAll xs).AllInRound ys := by
  induction xs generalizing s with
  | nil => simp [AllInRound]
  | cons a xs ih => simp only [List.cons_append, AllInRound, ih, actAll_cons, and_assoc]

theorem allInRound_visitActs (s : Simulation ω) (h : Handle) : s.AllInRound (s.visitActs h) := by
  unfold visitActs
  cases hi : s.level.instance? h with
  | none => trivial
  | some i =>
    dsimp only
    split
    · rename_i hdue
      split
      · exact ⟨⟨i, hi, hdue⟩, trivial, trivial⟩
      · exact ⟨⟨i, hi, hdue⟩, trivial⟩
    · trivial

theorem allInRound_reapActs (s : Simulation ω) : s.AllInRound s.reapActs := by
  have hremove (handles : List Handle) (t : Simulation ω) :
      t.AllInRound (handles.map .remove) := by
    induction handles generalizing t with
    | nil => trivial
    | cons h rest ih => exact ⟨trivial, ih _⟩
  unfold reapActs
  split
  · exact ⟨trivial, hremove _ _⟩
  · trivial

theorem allInRound_settleActs (left : Nat) (s : Simulation ω) :
    s.AllInRound (s.settleActs left) :=
  settleActs_induct (P := AllInRound) (fun hx hy => (allInRound_append _ _).mpr ⟨hx, hy⟩)
    (fun _ _ _ _ => ⟨trivial, trivial, trivial⟩)
    (fun s h _ _ => ⟨trivial, allInRound_visitActs s.dropReady h⟩)
    (fun _ _ _ _ => ⟨trivial, trivial⟩)
    (fun s _ _ => allInRound_reapActs s) left s

theorem allInRound_passActs (left : Nat) (s : Simulation ω) (handles : List Handle) :
    s.AllInRound (s.passActs left handles) :=
  passActs_induct (P := AllInRound) (fun _ => trivial)
    (fun hx hy => (allInRound_append _ _).mpr ⟨hx, hy⟩) allInRound_visitActs allInRound_settleActs
    left s handles

/-! ## What an act does to an instance -/

section Act

variable {s : Simulation ω} {h : Handle} {i : Instance}

/-- An instance that is not removed stays under its handle. Its last tick is the current one
after a turn, or where it was put off, and otherwise what it was. -/
theorem lastTick_act (hl : s.level.Sound) {a : Act} (ha : s.InRound a)
    (hi : s.level.instance? h = some i) (hremove : a ≠ .remove h) :
    (∃ j, (s.act a).level.instance? h = some j ∧
      j.lastTick = if a = .turn h ∨ a = .postpone h then s.level.tick else i.lastTick) ∧
    (h ∈ (s.act a).level.ready → h ∈ s.level.ready) := by
  have hdrop : a ≠ .terminateAll := by
    rintro rfl
    exact ha
  obtain ⟨j, hj, hfate⟩ := exists_fate hl hi hremove hdrop
  exact ⟨⟨j, hj, hfate.lastTick⟩, (step_act s a).ready_of_old hl hi⟩

/-- An instance that takes no turn and is not removed waits on. -/
theorem waits_on {sets : Status → Prop} {acts : List Act} (hl : s.level.Sound)
    (hround : s.AllInRound acts) (hproper : s.Proper sets acts)
    (hi : s.level.instance? h = some i) (hready : h ∉ s.level.ready) (hturn : .turn h ∉ acts)
    (hremove : .remove h ∉ acts) :
    ∃ j, (s.actAll acts).level.instance? h = some j ∧ j.lastTick = i.lastTick := by
  induction acts generalizing s i with
  | nil => exact ⟨i, hi, rfl⟩
  | cons a rest ih =>
    rw [List.mem_cons, not_or] at hturn hremove
    have hpostpone : a ≠ .postpone h := by
      rintro rfl
      obtain ⟨tail, htail⟩ := hproper.1
      exact hready (htail ▸ List.mem_cons_self)
    obtain ⟨⟨j, hj, hlast⟩, hready'⟩ := lastTick_act hl hround.1 hi (Ne.symm hremove.1)
    rw [if_neg (not_or.mpr ⟨Ne.symm hturn.1, hpostpone⟩)] at hlast
    obtain ⟨j', hj', hlast'⟩ := ih (sound_act hl a) hround.2 hproper.2 hj (mt hready' hready)
      hturn.2 hremove.2
    exact ⟨j', hj', hlast'.trans hlast⟩

/-- An instance that has taken its turn keeps the mark of it until it is removed. -/
theorem stays_spent {sets : Status → Prop} {acts : List Act} (hl : s.level.Sound)
    (hround : s.AllInRound acts) (hproper : s.Proper sets acts)
    (hi : s.level.instance? h = some i) (hlast : i.lastTick = s.level.tick)
    (hremove : .remove h ∉ acts) :
    ∃ j, (s.actAll acts).level.instance? h = some j ∧
      j.lastTick = (s.actAll acts).level.tick := by
  induction acts generalizing s i with
  | nil => exact ⟨i, hi, hlast⟩
  | cons a rest ih =>
    rw [List.mem_cons, not_or] at hremove
    have htick := (staysInTick_act s hproper.1.ne_tick).tick
    obtain ⟨⟨j, hj, hlast'⟩, -⟩ := lastTick_act hl hround.1 hi (Ne.symm hremove.1)
    refine ih (sound_act hl a) hround.2 hproper.2 hj ?_ hremove.2
    rw [hlast', htick, hlast, ite_self]

end Act

end Simulation

/-! ## The turns of those that are there at the start -/

/-- Handles from a list that acts do not remove. -/
def remaining (live : List Handle) (acts : List Act) : List Handle :=
  live.filter fun h => .remove h ∉ acts

/-- The turns of the instances under the handles of a list, one after the other. After a removal
the handle can stand for another instance, and does not count any more. -/
def turnsOf : List Handle → List Act → List Handle
  | _, [] => []
  | live, .turn h :: rest => if h ∈ live then h :: turnsOf live rest else turnsOf live rest
  | live, .remove h :: rest => turnsOf (live.filter (· ≠ h)) rest
  | live, _ :: rest => turnsOf live rest

section Turns

variable {live : List Handle} {acts : List Act} {h : Handle}

theorem remaining_append (live : List Handle) (xs ys : List Act) :
    remaining live (xs ++ ys) = remaining (remaining live xs) ys := by
  unfold remaining
  rw [List.filter_filter]
  refine List.filter_congr fun h _ => ?_
  simp [Bool.and_comm]

theorem remaining_cons (live : List Handle) (a : Act) (acts : List Act) :
    remaining live (a :: acts) = remaining (remaining live [a]) acts :=
  remaining_append live [a] acts

theorem remaining_eq_self (hremove : ∀ h ∈ live, .remove h ∉ acts) :
    remaining live acts = live :=
  List.filter_eq_self.mpr fun h hh => by simpa using hremove h hh

theorem turnsOf_cons (live : List Handle) (a : Act) (acts : List Act) :
    turnsOf live (a :: acts) = turnsOf live [a] ++ turnsOf (remaining live [a]) acts := by
  have hkept (hne : ∀ h, a ≠ .remove h) : remaining live [a] = live :=
    remaining_eq_self fun h _ => by simp [Ne.symm (hne h)]
  cases a with
  | turn h =>
    rw [hkept nofun]
    by_cases hh : h ∈ live <;> simp [turnsOf, hh]
  | remove h =>
    have hfilter : remaining live [.remove h] = live.filter (· ≠ h) := by
      refine List.filter_congr fun k _ => ?_
      simp
    rw [hfilter]
    rfl
  | _ => rw [hkept nofun]; rfl

theorem turnsOf_append (live : List Handle) (xs ys : List Act) :
    turnsOf live (xs ++ ys) = turnsOf live xs ++ turnsOf (remaining live xs) ys := by
  induction xs generalizing live with
  | nil => simp [turnsOf, remaining]
  | cons a xs ih =>
    rw [List.cons_append, turnsOf_cons, ih, ← remaining_cons, turnsOf_cons live a xs,
      List.append_assoc]

theorem turnsOf_eq_nil (hturn : ∀ h ∈ live, .turn h ∉ acts) : turnsOf live acts = [] := by
  induction acts generalizing live with
  | nil => rfl
  | cons a acts ih =>
    have hhead : turnsOf live [a] = [] := by
      cases a with
      | turn h =>
        have hh : h ∉ live := fun hh => hturn h hh List.mem_cons_self
        simp [turnsOf, hh]
      | _ => rfl
    rw [turnsOf_cons, hhead, List.nil_append]
    exact ih fun h hh hmem =>
      hturn h (List.mem_of_mem_filter hh) (List.mem_cons_of_mem _ hmem)

/-- An instance takes its turn, or is removed before, or neither. -/
theorem turnsOf_cases (hh : h ∈ live) (acts : List Act) :
    h ∈ turnsOf live acts ∨
      (∃ xs ys, acts = xs ++ .remove h :: ys ∧ .turn h ∉ xs ∧ .remove h ∉ xs) ∨
      (.turn h ∉ acts ∧ .remove h ∉ acts) := by
  induction acts generalizing live with
  | nil => exact .inr (.inr ⟨List.not_mem_nil, List.not_mem_nil⟩)
  | cons a acts ih =>
    rw [turnsOf_cons]
    by_cases hturn : a = .turn h
    · refine .inl (List.mem_append_left _ ?_)
      simp [hturn, turnsOf, hh]
    · by_cases hremove : a = .remove h
      · exact .inr (.inl ⟨[], acts, by rw [hremove]; rfl, List.not_mem_nil, List.not_mem_nil⟩)
      · have hlive : h ∈ remaining live [a] :=
          List.mem_filter.mpr ⟨hh, by simp [Ne.symm hremove]⟩
        rcases ih hlive with hmem | ⟨xs, ys, rfl, hxs, hxs'⟩ | ⟨h₁, h₂⟩
        · exact .inl (List.mem_append_right _ hmem)
        · refine .inr (.inl ⟨a :: xs, ys, rfl, ?_, ?_⟩)
          · simp [Ne.symm hturn, hxs]
          · simp [Ne.symm hremove, hxs']
        · refine .inr (.inr ⟨?_, ?_⟩)
          · simp [Ne.symm hturn, h₁]
          · simp [Ne.symm hremove, h₂]

end Turns

namespace Simulation

variable {ω : Type} [Host ω] {s : Simulation ω} {live : List Handle}

omit [Host ω] in
/-- What is under the handles of a list is there and not new. -/
def Seated (s : Simulation ω) (live : List Handle) : Prop :=
  ∀ h ∈ live, (∃ i, s.level.instance? h = some i) ∧ h ∉ s.level.ready

theorem seated_act (hl : s.level.Sound) (hs : s.Seated live) {a : Act} (ha : s.InRound a) :
    (s.act a).Seated (remaining live [a]) := by
  intro h hh
  obtain ⟨hmem, hremove⟩ := List.mem_filter.mp hh
  obtain ⟨⟨i, hi⟩, hready⟩ := hs h hmem
  have hne : a ≠ .remove h := by
    rintro rfl
    simp at hremove
  obtain ⟨⟨j, hj, -⟩, hready'⟩ := lastTick_act hl ha hi hne
  exact ⟨⟨j, hj⟩, mt hready' hready⟩

theorem seated_actAll {acts : List Act} (hl : s.level.Sound) (hs : s.Seated live)
    (hround : s.AllInRound acts) : (s.actAll acts).Seated (remaining live acts) := by
  induction acts generalizing s live with
  | nil =>
    intro h hh
    exact hs h (List.mem_of_mem_filter hh)
  | cons a acts ih =>
    rw [remaining_cons]
    exact ih (sound_act hl a) (seated_act hl hs hround.1) hround.2

theorem turn_mem_visitActs {h k : Handle} (hmem : .turn k ∈ s.visitActs h) : k = h := by
  rcases mem_visitActs hmem with h | h
  · exact Act.turn.inj h
  · cases h

/-- What follows a visit gives turns to new instances only. -/
theorem turnsOf_settleActs (left : Nat) (hl : s.level.Sound) (hs : s.Seated live) :
    turnsOf live (s.settleActs left) = [] := by
  refine settleActs_induct (P := fun s acts => s.AllInRound acts → s.level.Sound →
    ∀ live, s.Seated live → turnsOf live acts = []) (fun {s xs ys} hx hy hround hl live hs => ?_)
    (fun s r rest _ _ _ live _ => rfl) (fun s h rest hr _ _ live hs => ?_)
    (fun s h rest _ _ _ live _ => rfl) (fun s _ _ _ _ live _ => ?_) left s
    (allInRound_settleActs left s) hl live hs
  · obtain ⟨hround, hround'⟩ := (allInRound_append xs ys).mp hround
    rw [turnsOf_append, hx hround hl live hs,
      hy hround' (sound_actAll hl xs) _ (seated_actAll hl hs hround)]
    rfl
  · show turnsOf live (s.dropReady.visitActs h) = []
    refine turnsOf_eq_nil fun k hk hmem => ?_
    obtain rfl := turn_mem_visitActs hmem
    exact (hs k hk).2 (hr ▸ List.mem_cons_self)
  · refine turnsOf_eq_nil fun h _ hmem => ?_
    rcases mem_reapActs hmem with h | ⟨k, h⟩ <;> cases h

theorem turnsOf_visitActs (s : Simulation ω) (live : List Handle) (h : Handle) :
    (turnsOf live (s.visitActs h)).Sublist [h] := by
  unfold visitActs
  cases s.level.instance? h with
  | none => simp [turnsOf]
  | some i =>
    dsimp only
    split
    · split <;> by_cases hh : h ∈ live <;> simp [turnsOf, hh]
    · simp [turnsOf]

/-- A pass gives the turns in the order of its handles. -/
theorem turnsOf_passActs (left : Nat) (hl : s.level.Sound) (hs : s.Seated live)
    (handles : List Handle) : (turnsOf live (s.passActs left handles)).Sublist handles := by
  induction handles generalizing left s live with
  | nil => exact .slnil
  | cons h rest ih =>
    have hvisit : s.AllInRound (s.visitActs h) := allInRound_visitActs s h
    have hsettle := allInRound_settleActs left (s.visit h)
    have hl' := sound_visit hl h
    have hs' := seated_actAll hl hs hvisit
    rw [actAll_visitActs] at hs'
    have hs'' := seated_actAll hl' hs' hsettle
    rw [actAll_settleActs, ← remaining_append] at hs''
    rw [passActs, turnsOf_append, turnsOf_append, turnsOf_settleActs left hl' hs',
      List.append_nil]
    exact (turnsOf_visitActs s live h).append (ih _ (sound_settle hl' left) hs'')

/-! ## Levels whose marks are current -/

end Simulation

namespace Level

/-- Every instance took its last turn in the last tick, or has not taken any. -/
def Current (l : Level) : Prop :=
  ∀ h i, l.instance? h = some i → i.lastTick = l.tick ∨ i.lastTick = 0

theorem Current.ne_succ {l : Level} (hc : l.Current) (hcount : l.tick + 1 ≠ 0) {h : Handle}
    {i : Instance} (hi : l.instance? h = some i) : i.lastTick ≠ l.tick + 1 := by
  rcases hc h i hi with hlast | hlast
  · exact Recent.ne_succ (.inl hlast)
  · rw [hlast]
    exact hcount.symm

/-- A level as it starts. -/
inductive Started : Level → Prop
  | start (program : Program) (map : Int32) (config : Config) : Started (start program map config)

theorem Started.fresh {l : Level} (h : Started l) : Fresh l := by
  cases h with
  | start program map config => exact .start program map config

open Simulation

/-- Within a tick no act makes a mark that is not current. -/
theorem current_act {ω : Type} [Host ω] {s : Simulation ω} {a : Act} (hl : s.level.Sound)
    (ha : a ≠ .tick) (hc : s.level.Current) : (s.act a).level.Current := by
  intro h j hj
  rw [(staysInTick_act s ha).tick]
  rcases (step_act s a).origin hl hj with ⟨i, hi, hfate⟩ | ⟨-, hnew, -⟩
  · rw [hfate.lastTick]
    split
    · exact .inl rfl
    · exact hc h i hi
  · obtain ⟨script, leastLocals, args, activator, line, side, -, rfl⟩ := hnew
    exact .inr rfl

theorem current_actAll {ω : Type} [Host ω] {s : Simulation ω} {acts : List Act}
    (hl : s.level.Sound) (hproper : s.Proper (fun _ => True) acts) (hc : s.level.Current) :
    (s.actAll acts).level.Current := by
  induction acts generalizing s with
  | nil => exact hc
  | cons a rest ih =>
    exact ih (sound_act hl a) hproper.2 (current_act hl hproper.1.ne_tick hc)

/-- Operations leave no mark that is not current. -/
theorem Current.run {ω : Type} [Host ω] {s : Simulation ω} (hc : s.level.Current)
    (hrest : s.level.AtRest) (op : Operation) : (op.run s).2.level.Current := by
  by_cases htick : op = .tick
  · subst htick
    by_cases hr : s.level.isReplica = true
    · rwa [show (Operation.tick.run s).2 = s from if_pos hr]
    · exact fun k j hj => .inl (stamped_tick hrest.sound (by simpa using hr) hrest.quiet hj)
  · have hsets : op.Sets fun _ => True := by cases op <;> trivial
    rw [op.run_eq_acts]
    exact current_actAll hrest.sound (op.proper_acts closed_true hrest htick hsets) hc

theorem current_start (program : Program) (map : Int32) (config : Config) :
    (start program map config).Current := by
  intro k j hj
  have hmem := (Roster.mem_entries_iff (sound_start program map config).roster).mpr hj
  exact absurd hmem List.not_mem_nil

theorem Reachable.current {l : Level} (h : Reachable Started (fun _ => True) l) :
    l.AtRest ∧ l.Current := by
  induction h with
  | origin h =>
    refine ⟨h.fresh.atRest, ?_⟩
    cases h
    exact current_start _ _ _
  | @run ω _ s op _ _ ih =>
    obtain ⟨hrest, hc⟩ := ih
    exact ⟨hrest.run op, hc.run hrest op⟩

end Level

namespace Simulation

variable {ω : Type} [Host ω] {s : Simulation ω}

/-- When a tick begins, everyone is due. -/
theorem dueHandles_act_tick (hl : s.level.Sound) (hc : s.level.Current)
    (hcount : s.level.tick + 1 ≠ 0) : (s.act .tick).dueHandles = s.level.roster.handles := by
  have hdue : s.level.roster.entries.filter (fun e => e.2.lastTick != s.level.tick + 1) =
      s.level.roster.entries := by
    refine List.filter_eq_self.mpr fun ⟨h, i⟩ hmem => ?_
    rw [bne_iff_ne]
    exact hc.ne_succ hcount ((Roster.mem_entries_iff hl.roster).mp hmem)
  rw [Roster.handles_eq hl.roster]
  show (s.level.roster.entries.filter _).map Prod.fst = _
  exact congrArg (List.map Prod.fst) hdue

omit [Host ω] in
theorem seated_handles (hl : s.level.AtRest) : s.Seated s.level.roster.handles := by
  intro h hh
  rw [Roster.handles_eq hl.sound.roster] at hh
  obtain ⟨⟨k, i⟩, hmem, rfl⟩ := List.mem_map.mp hh
  refine ⟨⟨i, (Roster.mem_entries_iff hl.sound.roster).mp hmem⟩, ?_⟩
  rw [hl.quiet.2]
  exact List.not_mem_nil

/-! ## One advance for everyone -/

/-- In these acts, those that are there at the start take a turn each in their order, unless they
have ended before; nobody takes two. -/
structure AdvancesOnce (s : Simulation ω) (acts : List Act) : Prop where
  /-- Whoever takes a turn is there, and has not taken one in this tick. -/
  due : ∀ xs h ys, acts = xs ++ .turn h :: ys →
    ∃ i, (s.actAll xs).level.instance? h = some i ∧ (s.actAll xs).isDue i = true
  /-- The order of turns is the one at the start. -/
  order : (turnsOf s.level.roster.handles acts).Sublist s.level.roster.handles
  /-- Who is there at the start and takes no turn is removed before, because it has ended. -/
  missed : ∀ h ∈ s.level.roster.handles, h ∉ turnsOf s.level.roster.handles acts →
    ∃ xs ys i, acts = xs ++ .remove h :: ys ∧ .turn h ∉ xs ∧
      (s.actAll xs).level.instance? h = some i ∧ i.status.isTerminal = true
  /-- Between two turns under a handle, the instance that took the first is removed. -/
  again : ∀ xs h ys zs, acts = xs ++ .turn h :: (ys ++ .turn h :: zs) →
    ∃ us vs i, ys = us ++ .remove h :: vs ∧
      (s.actAll (xs ++ .turn h :: us)).level.instance? h = some i

/-- The first of several equal acts. -/
theorem exists_first {a : Act} {acts : List Act} (h : a ∈ acts) :
    ∃ xs ys, acts = xs ++ a :: ys ∧ a ∉ xs := by
  induction acts with
  | nil => cases h
  | cons b acts ih =>
    by_cases hb : a = b
    · exact ⟨[], acts, by rw [hb]; rfl, List.not_mem_nil⟩
    · obtain ⟨xs, ys, rfl, hxs⟩ := ih ((List.mem_cons.mp h).resolve_left hb)
      exact ⟨b :: xs, ys, rfl, by simp [hb, hxs]⟩

/-- A tick begins before anyone takes a turn. -/
theorem AdvancesOnce.begin {acts : List Act} (h : (s.act .tick).AdvancesOnce acts) :
    s.AdvancesOnce (.tick :: acts) where
  due := by
    intro xs k ys hacts
    cases xs with
    | nil => cases hacts
    | cons a xs =>
      rw [List.cons_append, List.cons.injEq] at hacts
      obtain ⟨rfl, hacts⟩ := hacts
      exact h.due xs k ys hacts
  order := h.order
  missed := by
    intro k hk hmissed
    obtain ⟨xs, ys, i, rfl, hturn, hi⟩ := h.missed k hk hmissed
    exact ⟨.tick :: xs, ys, i, rfl, by simp [hturn], hi⟩
  again := by
    intro xs k ys zs hacts
    cases xs with
    | nil => cases hacts
    | cons a xs =>
      rw [List.cons_append, List.cons.injEq] at hacts
      obtain ⟨rfl, hacts⟩ := hacts
      exact h.again xs k ys zs hacts

/-- After a pass over all instances, everyone bears the mark of the tick. -/
theorem marked_pass (hl : s.level.AtRest) {h : Handle} {i : Instance}
    (hi : (s.actAll (s.passActs maxFirstTurns s.level.roster.handles)).level.instance? h = some i) :
    i.lastTick = (s.actAll (s.passActs maxFirstTurns s.level.roster.handles)).level.tick := by
  rw [actAll_passActs] at hi ⊢
  have hstamped : s.Stamped s.level.roster.handles := by
    intro k j hj
    rw [Roster.handles_eq hl.sound.roster]
    have hmem := (Roster.mem_entries_iff hl.sound.roster).mpr hj
    exact .inr (.inl (List.mem_map_of_mem (f := Prod.fst) hmem))
  rcases stamped_pass hl.sound hstamped h i hi with hlast | hmem | hmem
  · exact hlast
  · exact absurd hmem List.not_mem_nil
  · rw [(quiet_pass hl.quiet _).2] at hmem
    exact absurd hmem List.not_mem_nil

/-- In a round, an instance that takes a turn under a handle is removed before another does. -/
theorem removed_between (hl : s.level.Sound) (hcount : s.level.tick ≠ 0) {xs ys zs : List Act}
    {h : Handle} (hround : s.AllInRound (xs ++ .turn h :: (ys ++ .turn h :: zs)))
    (hproper : s.Proper (fun _ => True) (xs ++ .turn h :: (ys ++ .turn h :: zs))) :
    ∃ us vs i, ys = us ++ .remove h :: vs ∧
      (s.actAll (xs ++ .turn h :: us)).level.instance? h = some i := by
  obtain ⟨-, hturn, hround'⟩ := (allInRound_append _ _).mp hround
  obtain ⟨hproper₀, hturn', hproper'⟩ := (proper_append _ _).mp hproper
  have hl₀ := sound_actAll hl xs
  have htick : ((s.actAll xs).act (.turn h)).level.tick = s.level.tick :=
    (staysInTick_act _ hturn'.ne_tick).tick.trans (tick_of_proper hproper₀)
  -- Right after its turn the instance bears the mark of the tick.
  obtain ⟨j, hj, hlast⟩ : ∃ j, ((s.actAll xs).act (.turn h)).level.instance? h = some j ∧
      j.lastTick = ((s.actAll xs).act (.turn h)).level.tick := by
    have ⟨i, hi, _⟩ := hturn
    obtain ⟨⟨j, hj, hlast⟩, -⟩ := lastTick_act hl₀ hturn hi nofun
    rw [if_pos (.inl rfl), tick_of_proper hproper₀] at hlast
    exact ⟨j, hj, hlast.trans htick.symm⟩
  have hl₁ := sound_act hl₀ (.turn h)
  by_cases hmem : .remove h ∈ ys
  · obtain ⟨us, vs, rfl, hus⟩ := exists_first hmem
    rw [List.append_assoc] at hround' hproper'
    obtain ⟨k, hk, -⟩ := stays_spent hl₁ ((allInRound_append _ _).mp hround').1
      ((proper_append _ _).mp hproper').1 hj hlast hus
    exact ⟨us, vs, k, rfl, by rwa [actAll_append]⟩
  · obtain ⟨hround₂, ⟨i, hi, hdue⟩, -⟩ := (allInRound_append _ _).mp hround'
    have hproper₂ := ((proper_append _ _).mp hproper').1
    obtain ⟨k, hk, hlast'⟩ := stays_spent hl₁ hround₂ hproper₂ hj hlast hmem
    obtain rfl := Option.some.inj (hi.symm.trans hk)
    rw [isDue, hlast', tick_of_proper hproper₂, htick] at hdue
    simp [hcount] at hdue

/-- A pass over all instances, none of which has taken its turn. -/
theorem advancesOnce_passActs (hl : s.level.AtRest) (hcount : s.level.tick ≠ 0)
    (hdue : ∀ h i, s.level.instance? h = some i → i.lastTick ≠ s.level.tick) :
    s.AdvancesOnce (s.passActs maxFirstTurns s.level.roster.handles) := by
  have hround := allInRound_passActs maxFirstTurns s s.level.roster.handles
  have hproper := proper_passActs closed_true maxFirstTurns hl.sound hl.quiet
    s.level.roster.handles
  refine ⟨?_, turnsOf_passActs _ hl.sound (seated_handles hl) _, ?_, ?_⟩
  · intro xs h ys hacts
    rw [hacts] at hround
    exact ((allInRound_append _ _).mp hround).2.1
  · intro h hh hmissed
    obtain ⟨⟨i, hi⟩, hready⟩ := seated_handles hl h hh
    rcases turnsOf_cases hh (s.passActs maxFirstTurns s.level.roster.handles) with
      hturn | ⟨xs, ys, hacts, hturn, hremove⟩ | ⟨hturn, hremove⟩
    · exact absurd hturn hmissed
    · rw [hacts] at hround hproper
      obtain ⟨hround', -⟩ := (allInRound_append _ _).mp hround
      obtain ⟨hproper', hremoved, -⟩ := (proper_append _ _).mp hproper
      obtain ⟨j, hj, -⟩ := waits_on hl.sound hround' hproper' hi hready hturn hremove
      exact ⟨xs, ys, j, hacts, hturn, hj, hremoved.2 j hj⟩
    · obtain ⟨j, hj, hlast⟩ := waits_on hl.sound hround hproper hi hready hturn hremove
      have hend := marked_pass hl hj
      rw [tick_of_proper hproper] at hend
      exact absurd (hlast.symm.trans hend) (hdue h i hi)
  · intro xs h ys zs hacts
    rw [hacts] at hround hproper
    exact removed_between hl.sound hcount hround hproper

/-- **Everyone advances once in a tick.** In every level that calls lead to, the rounds of a tick
come to an end, after which all instances bear the mark of the tick. Those that were there when
it began have taken one turn each, in the order they had then, unless they had ended before; and
nobody, however new, has taken two. The counter of ticks must not overflow. -/
theorem tick_advances_once (hs : Level.Reachable Level.Started (fun _ => True) s.level)
    (hrole : s.level.isReplica = false) (hcount : s.level.tick + 1 ≠ 0) :
    (∀ t, Rounds maxFirstTurns (s.act .tick) t ↔ t = s.tick) ∧
    s.tick = s.actAll s.tickActs ∧ s.AdvancesOnce s.tickActs ∧
    s.tick.level.tick = s.level.tick + 1 ∧
    ∀ h i, s.tick.level.instance? h = some i → i.lastTick = s.level.tick + 1 := by
  obtain ⟨hrest, hcurrent⟩ := hs.current
  have hbegun : (s.act .tick).level.AtRest :=
    ⟨sound_act hrest.sound .tick, hrest.quiet, hrest.stack⟩
  have hacts : s.tickActs =
      .tick :: (s.act .tick).passActs maxFirstTurns (s.act .tick).level.roster.handles := by
    rw [tickActs, if_neg (by simp [hrole]), dueHandles_act_tick hrest.sound hcurrent hcount]
    rfl
  have hcounted : s.tick.level.tick = s.level.tick + 1 := by
    rw [← actAll_tickActs, hacts, actAll_cons]
    exact tick_of_proper (proper_passActs closed_true _ hbegun.sound hbegun.quiet _)
  refine ⟨rounds_iff hrest hrole, (actAll_tickActs s).symm, ?_, hcounted, fun h i hi => ?_⟩
  · rw [hacts]
    exact (advancesOnce_passActs hbegun hcount fun h i hi => hcurrent.ne_succ hcount hi).begin
  · rw [← hcounted]
    exact stamped_tick hrest.sound hrole hrest.quiet hi

end Simulation

/-! ## An instance that misses its turn -/

namespace Doomed

open Simulation

/-- Both scripts end at once. -/
def program : Program :=
  { (default : Program) with
    image := #[1, 0, 0, 0]
    layout := .enhanced .wide
    scripts := [{ (default : Script) with number := 1 }, { (default : Script) with number := 2 }] }

def idle : Simulation StillWorld := ⟨.start program 1 .standard, .empty, default, default⟩

/-- Script 1 is started and did not run yet. -/
def first : Simulation StillWorld := (idle.start { script := 1, deferStart := true }).2.reap

/-- So is script 2. -/
def second : Simulation StillWorld := (first.start { script := 2, deferStart := true }).2.reap

/-- The instance of script 2 is put first, and the one of script 1 is ended from outside. -/
def doomed : Simulation StillWorld :=
  (Operation.run (Operation.run second (.putFirst (.script 2))).2 (.setStatus 1 .pleaseRemove)).2

theorem run_first : (Operation.run idle (.launch { script := 1, deferStart := true })).2 = first :=
  Operation.run_launch_deferred (by decide +kernel) (by decide +kernel) (by decide +kernel)

theorem run_second :
    (Operation.run first (.launch { script := 2, deferStart := true })).2 = second :=
  Operation.run_launch_deferred (by decide +kernel) (by decide +kernel) (by decide +kernel)

theorem reachable_doomed : Level.Reachable Level.Started (fun _ => True) doomed.level := by
  have hidle : Level.Reachable Level.Started (fun _ => True) idle.level :=
    .origin (.start program 1 .standard)
  have hfirst : Level.Reachable Level.Started (fun _ => True) first.level :=
    run_first ▸ hidle.run trivial
  have hsecond : Level.Reachable Level.Started (fun _ => True) second.level :=
    run_second ▸ hfirst.run trivial
  exact (hsecond.run trivial).run trivial

/-- The tick before it finds one instance that is due and one that has ended. -/
theorem tick_advances_once_doomed :
    Level.Reachable Level.Started (fun _ => True) doomed.level ∧
    doomed.level.isReplica = false ∧ doomed.level.tick + 1 ≠ 0 ∧
    doomed.level.roster.handles = [⟨1, 0⟩, ⟨0, 0⟩] ∧
    (doomed.level.instance? ⟨0, 0⟩).map (·.status) = some .pleaseRemove ∧
    doomed.AdvancesOnce doomed.tickActs ∧
    ∀ h i, doomed.tick.level.instance? h = some i → i.lastTick = 1 := by
  have hfacts : doomed.level.isReplica = false ∧ doomed.level.tick = 0 ∧
      doomed.level.roster.handles = [⟨1, 0⟩, ⟨0, 0⟩] ∧
      (doomed.level.instance? ⟨0, 0⟩).map (·.status) = some .pleaseRemove := by
    decide +kernel
  obtain ⟨hrole, htick, hhandles, hended⟩ := hfacts
  have hcount : doomed.level.tick + 1 ≠ 0 := by
    rw [htick]
    decide
  obtain ⟨-, -, honce, -, hmarked⟩ :=
    Simulation.tick_advances_once reachable_doomed hrole hcount
  rw [htick] at hmarked
  exact ⟨reachable_doomed, hrole, hcount, hhandles, hended, honce, hmarked⟩

end Doomed

end LevelScript
