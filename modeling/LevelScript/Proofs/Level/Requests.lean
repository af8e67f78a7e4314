import LevelScript.Proofs.Level.FirstTurns

/-!
# Requests in order

What an instance asks of other scripts in its turn is put into a queue. When it is back in its
place, or removed, the queue is emptied from the front before anybody else takes a turn. So
requests are acted on in the order in which they were raised, each once, and none is left when an
operation ends.

* `Simulation.Throughout`: what holds of every act and of those that follow it.
* `Simulation.Conserves`: what was in a queue or came into it has left it, in this order, or is
  still there.
* `Simulation.raised`: the requests of a turn.
* `Simulation.Drains`: every turn is followed by acting on its requests.
* `Simulation.RequestLaw`: what was in the queue or was raised was acted on, in this order, or
  is still there.
* `Operation.requests_in_order`: the acts of every operation.
-/

namespace LevelScript

namespace Simulation

variable {ω : Type} [Host ω] {s : Simulation ω} {a : Act} {h : Handle} {acts : List Act}

/-! ## Acts and those that follow -/

/-- Each act, with those that follow it, is as `Q` says when it is reached. -/
def Throughout (Q : Simulation ω → Act → List Act → Prop) (s : Simulation ω) : List Act → Prop
  | [] => True
  | a :: rest => Q s a rest ∧ (s.act a).Throughout Q rest

section Throughout

variable {Q : Simulation ω → Act → List Act → Prop} {xs ys : List Act}

theorem Throughout.append (mono : ∀ {s a rest} more, Q s a rest → Q s a (rest ++ more))
    (hx : s.Throughout Q xs) (hy : (s.actAll xs).Throughout Q ys) :
    s.Throughout Q (xs ++ ys) := by
  induction xs generalizing s with
  | nil => exact hy
  | cons a rest ih => exact ⟨mono ys hx.1, ih hx.2 hy⟩

theorem throughout_of_forall (h : ∀ a ∈ acts, ∀ s rest, Q s a rest) : s.Throughout Q acts := by
  induction acts generalizing s with
  | nil => trivial
  | cons a rest ih =>
    obtain ⟨ha, hrest⟩ := List.forall_mem_cons.mp h
    exact ⟨ha s rest, ih hrest⟩

theorem Throughout.at (h : s.Throughout Q acts) (hacts : acts = xs ++ a :: ys) :
    Q (s.actAll xs) a ys := by
  subst hacts
  induction xs generalizing s with
  | nil => exact h.1
  | cons b xs ih => exact ih h.2

end Throughout

/-! ## Queues -/

section Queues

variable {α : Type}

/-- What acts one after the other contribute, in order. -/
def gather (f : Simulation ω → Act → List α) (s : Simulation ω) (acts : List Act) : List α :=
  (s.moments acts).flatMap fun m => f m.1 m.2

variable {f : Simulation ω → Act → List α}

@[simp] theorem gather_nil : s.gather f [] = [] := rfl

@[simp] theorem gather_cons : s.gather f (a :: acts) = f s a ++ (s.act a).gather f acts := rfl

theorem gather_append (xs ys : List Act) :
    s.gather f (xs ++ ys) = s.gather f xs ++ (s.actAll xs).gather f ys := by
  rw [gather, moments_append, List.flatMap_append]
  rfl

theorem gather_of_none (h : ∀ a ∈ acts, ∀ s, f s a = []) : s.gather f acts = [] := by
  induction acts generalizing s with
  | nil => rfl
  | cons a rest ih =>
    obtain ⟨ha, hrest⟩ := List.forall_mem_cons.mp h
    rw [gather_cons, ha s, ih hrest, List.append_nil]

/-- What was in a queue or came into it has left it, in this order, or is still there. -/
def Conserves (queue : Simulation ω → List α) (leaves joins : Simulation ω → Act → List α)
    (s : Simulation ω) (acts : List Act) : Prop :=
  s.gather leaves acts ++ queue (s.actAll acts) = queue s ++ s.gather joins acts

variable {queue : Simulation ω → List α} {leaves joins : Simulation ω → Act → List α}

theorem conserves_nil (s : Simulation ω) : s.Conserves queue leaves joins [] :=
  (List.append_nil _).symm

theorem conserves_one (h : leaves s a ++ queue (s.act a) = queue s ++ joins s a) :
    s.Conserves queue leaves joins [a] := by
  simpa [Conserves] using h

theorem Conserves.append {more : List Act} (hs : s.Conserves queue leaves joins acts)
    (hmore : (s.actAll acts).Conserves queue leaves joins more) :
    s.Conserves queue leaves joins (acts ++ more) := by
  unfold Conserves at hs hmore ⊢
  rw [actAll_append, gather_append, gather_append, List.append_assoc, hmore, ← List.append_assoc,
    hs, List.append_assoc]

theorem conserves_of_forall (h : ∀ a ∈ acts, ∀ s, Conserves queue leaves joins s [a]) :
    s.Conserves queue leaves joins acts := by
  induction acts generalizing s with
  | nil => exact conserves_nil s
  | cons a rest ih =>
    obtain ⟨ha, hrest⟩ := List.forall_mem_cons.mp h
    exact (ha s).append (ih hrest)

end Queues

/-! ## The requests of a turn -/

/-- The machine at the end of an instance's turn, if it runs in it. -/
def ran? (s : Simulation ω) (h : Handle) : Option (Machine ω) :=
  (s.level.instance? h).bind fun i =>
    if (s.nextStatus i.status).1 = .running then
      some (Machine.run s.level.program s.level.config ((s.nextStatus i.status).2.machine
        { i with lastTick := s.level.tick, status := .running })).2
    else none

/-- The requests that an instance raises in its turn, in order. -/
def raised (s : Simulation ω) (h : Handle) : List Request :=
  ((s.ran? h).map fun m => m.requests.toList).getD []

/-- The requests of a turn come last in the queue. -/
theorem pending_of_turn (s : Simulation ω) (h : Handle) :
    (s.act (.turn h)).level.pending = s.level.pending ++ s.raised h := by
  show (s.turn h).level.pending = _
  unfold turn raised ran?
  cases s.level.instance? h with
  | none => exact (List.append_nil _).symm
  | some i =>
    have hlevel := level_nextStatus s i.status
    show (s.advance i).2.level.pending = _
    unfold advance
    dsimp only [Option.bind_some]
    split
    · rename_i hrun
      rw [hlevel, dispatch_eq, hlevel, hrun]
      rfl
    · rw [hlevel]
      exact (List.append_nil _).symm

/-- The turn of an instance acts on no request: it starts, sets and ends no other instance, and
files nothing for other maps. -/
structure TurnsAlone (s : Simulation ω) (h : Handle) : Prop where
  others : ∀ k, k ≠ h → (s.act (.turn h)).level.instance? k = s.level.instance? k
  tracked : (s.act (.turn h)).level.tracked = s.level.tracked
  ready : (s.act (.turn h)).level.ready = s.level.ready
  deferred : (s.act (.turn h)).session.deferred = s.session.deferred

theorem turnsAlone (hl : s.level.Sound) (h : Handle) : s.TurnsAlone h := by
  cases hi : s.level.instance? h with
  | none =>
    have hsame : s.act (.turn h) = s := by
      show s.turn h = s
      rw [turn, hi]
    constructor <;> simp [hsame]
  | some i =>
    have hturn : s.act (.turn h) = (s.advance i).2.seat h (s.advance i).1 := by
      show s.turn h = _
      rw [turn, hi]
    obtain ⟨-, hturned⟩ := advance_spec s i
    refine ⟨fun k hk => (instance?_turn hl hi k).trans (if_neg hk), ?_, ?_, ?_⟩
    · rw [hturn]
      exact hturned.tracked
    · rw [hturn]
      exact hturned.ready
    · rw [hturn]
      exact deferred_advance s i

/-- Whether the instance has ended after its turn. -/
def endsIn (s : Simulation ω) (h : Handle) : Bool :=
  ((s.act (.turn h)).level.instance? h).any (·.status.isTerminal)

/-- A visit is a turn, and the removal of an instance that ended in it. -/
theorem visitActs_cases (hl : s.level.Sound) (h : Handle) :
    s.visitActs h = [] ∨
      s.visitActs h = .turn h :: if s.endsIn h then [.remove h] else [] := by
  unfold visitActs
  cases hi : s.level.instance? h with
  | none => exact .inl rfl
  | some i =>
    have hends : s.endsIn h = (s.advance i).1.status.isTerminal := by
      rw [endsIn, show s.act (.turn h) = s.turn h from rfl, instance?_turn hl hi, if_pos rfl]
      rfl
    dsimp only
    rw [hends]
    split
    · refine .inr ?_
      split <;> rfl
    · exact .inl rfl

/-! ## What follows a turn -/

/-- Requests are taken out of the queue and acted on, one after the other. -/
def handling (rs : List Request) : List Act := rs.flatMap fun r => [.takeRequest, .route r]

/-- What follows a turn: the instance is removed if it ended, and its requests are acted on. -/
def aftermath (s : Simulation ω) (h : Handle) : List Act :=
  (if s.endsIn h then [.remove h] else []) ++ handling (s.raised h)

/-- Settling acts on the requests in the queue before all else. -/
theorem exists_handling (left : Nat) (s : Simulation ω) :
    ∃ rest, s.settleActs left = handling s.level.pending ++ rest := by
  generalize hrs : s.level.pending = rs
  induction rs generalizing s with
  | nil => exact ⟨s.settleActs left, rfl⟩
  | cons r rs ih =>
    have hnext : (s.dropRequest.route r).2.level.pending = rs := by
      rw [pending_route]
      show s.level.pending.tail = rs
      rw [hrs]
      rfl
    obtain ⟨rest, hrest⟩ := ih _ hnext
    exact ⟨rest, by rw [settleActs_request hrs, hrest]; rfl⟩

theorem isTurn_aftermath (s : Simulation ω) (h : Handle) :
    ∀ a ∈ s.aftermath h, a.isTurn = false := by
  intro a ha
  rcases List.mem_append.mp ha with ha | ha
  · split at ha
    · rw [List.mem_singleton.mp ha]
      rfl
    · cases ha
  · obtain ⟨r, -, ha⟩ := List.mem_flatMap.mp ha
    rcases List.mem_pair.mp ha with rfl | rfl <;> rfl

/-- Nobody executes in the act. Whoever is there after it is new, or was there and keeps all but
its status and the mark of its last turn. -/
def Idles (s : Simulation ω) (a : Act) : Prop :=
  ∀ k j, (s.act a).level.instance? k = some j →
    (∃ i st last, s.level.instance? k = some i ∧ j = { i with status := st, lastTick := last }) ∨
      s.level.instance? k = none ∧ Level.IsNew s.level.program j

theorem idles (hl : s.level.Sound) (hturn : a.isTurn = false) : s.Idles a := by
  intro k j hj
  have hother : a ≠ .turn k := by
    rintro rfl
    cases hturn
  rcases accounts_act hl a k j hj hother with ⟨i, hi, hside⟩ | hnew
  · refine .inl ⟨i, j.status, j.lastTick, hi, ?_⟩
    cases hside <;> rfl
  · exact .inr hnew

/-- When an instance takes its turn, no request is in the queue; and those that it raises are
acted on right after. -/
def Drains (s : Simulation ω) (acts : List Act) : Prop :=
  s.Throughout (fun s a rest =>
    ∀ h, a = .turn h → s.level.pending = [] ∧ s.aftermath h <+: rest) acts

theorem Drains.append {more : List Act} (hs : s.Drains acts)
    (hmore : (s.actAll acts).Drains more) : s.Drains (acts ++ more) := by
  refine Throughout.append (fun {s a rest} more hfollow h ha => ?_) hs hmore
  obtain ⟨hpending, hafter⟩ := hfollow h ha
  exact ⟨hpending, hafter.trans (List.prefix_append rest more)⟩

theorem drains_of_none (hacts : ∀ a ∈ acts, a.isTurn = false) : s.Drains acts := by
  refine throughout_of_forall fun a ha s rest h hturn => ?_
  have hnot := hacts a ha
  rw [hturn] at hnot
  cases hnot

/-- Acts that have nothing to do with the queue. -/
theorem pending_of_act (hturn : a.isTurn = false) (htake : a ≠ .takeRequest)
    (hdrop : a ≠ .terminateAll) : (s.act a).level.pending = s.level.pending :=
  ((step_act s a).pending hturn).resolve_right fun h =>
    h.elim (fun h => htake h.1) fun h => hdrop h.1

/-- A visit with all that it leads to. -/
theorem drains_visit (hl : s.level.Sound) (hp : s.level.pending = []) (h : Handle) {left : Nat}
    (hrest : (s.visit h).Drains ((s.visit h).settleActs left)) :
    s.Drains (s.visitActs h ++ (s.visit h).settleActs left) := by
  have hvisit := actAll_visitActs s h
  rcases visitActs_cases hl h with hnone | hacts
  · rw [hnone, actAll_nil] at hvisit
    rw [hnone, List.nil_append, ← hvisit]
    rwa [← hvisit] at hrest
  · rw [hacts, actAll_cons] at hvisit
    rw [hacts, List.cons_append]
    constructor
    · intro k hk
      obtain rfl := Act.turn.inj hk
      refine ⟨hp, ?_⟩
      -- The queue holds the requests of this turn only.
      have hpending : (s.visit h).level.pending = s.raised h := by
        rw [← hvisit]
        split
        · rw [actAll_cons, actAll_nil, pending_of_act rfl (by simp) (by simp), pending_of_turn, hp,
            List.nil_append]
        · rw [actAll_nil, pending_of_turn, hp, List.nil_append]
      obtain ⟨rest, hhandling⟩ := (s.visit h).exists_handling left
      rw [hhandling, hpending, aftermath, ← List.append_assoc]
      exact List.prefix_append _ rest
    · refine Drains.append (drains_of_none fun a ha => ?_) (hvisit ▸ hrest)
      exact s.isTurn_aftermath h a (List.mem_append_left _ ha)

theorem drains_settleActs (left : Nat) (hl : s.level.Sound) : s.Drains (s.settleActs left) := by
  fun_induction settle left s with
  | case1 left s r rest hp _ ih =>
    rw [settleActs_request hp]
    have hfront : s.Drains [.takeRequest, .route r] := drains_of_none (by simp [Act.isTurn])
    exact hfront.append (ih (sound_act (sound_act hl .takeRequest) (.route r)))
  | case2 left s hp hr =>
    rw [settleActs_done hp hr]
    exact drains_of_none s.isTurn_reapActs
  | case3 s hp h rest hr _ ih =>
    rw [settleActs_postpone hp hr]
    have hfront : s.Drains [.postpone h] := drains_of_none (by simp [Act.isTurn])
    exact hfront.append (ih (sound_act hl (.postpone h)))
  | case4 s hp h rest hr left ih =>
    have hl' : s.dropReady.level.Sound := sound_act hl .takeReady
    rw [settleActs_visit hp hr, List.cons_append]
    have hfront : s.Drains [.takeReady] := drains_of_none (by simp [Act.isTurn])
    exact hfront.append (drains_visit hl' hp h (ih (sound_visit hl' h)))

theorem drains_passActs (left : Nat) (hl : s.level.Sound) (hq : s.level.Quiet)
    (handles : List Handle) : s.Drains (s.passActs left handles) := by
  induction handles generalizing left s with
  | nil => trivial
  | cons h rest ih =>
    have hv := sound_visit hl h
    refine Drains.append (drains_visit hl hq.1 h (drains_settleActs left hv)) ?_
    rw [actAll_append, actAll_visitActs, actAll_settleActs]
    exact ih _ (sound_settle hv left) (quiet_settle left _)

end Simulation

/-- In every operation, each turn is followed by acting on its requests. -/
theorem Operation.drains_acts {ω : Type} [Host ω] {s : Simulation ω} (hl : s.level.AtRest)
    (op : Operation) : s.Drains (op.acts s) := by
  refine acts_induct (P := fun s acts => s.level.Sound → s.Drains acts) (fun s _ => trivial)
    (fun hx hy hs => (hx hs).append (hy (Simulation.sound_actAll hs _)))
    (fun s a ha _ => Simulation.drains_of_none (by simp [ha.isTurn]))
    (fun s hs => Simulation.drains_settleActs _ hs) s (fun _ _ => ?_) hl.sound
  unfold Simulation.tickActs
  split
  · trivial
  · refine ⟨fun h ha => (by cases ha), ?_⟩
    exact Simulation.drains_passActs _ (Simulation.sound_act hl.sound .tick) hl.quiet _

/-! ## Each request once -/

/-- The request that is acted on. -/
def Act.routed : Act → List Request
  | route r => [r]
  | _ => []

namespace Simulation

variable {ω : Type} [Host ω] {s : Simulation ω} {a : Act} {h : Handle} {acts : List Act}

/-- The requests that are acted on, in order. -/
def routedIn (s : Simulation ω) (acts : List Act) : List Request :=
  s.gather (fun _ => Act.routed) acts

/-- The requests that an act raises. -/
def raisedBy (s : Simulation ω) : Act → List Request
  | .turn h => s.raised h
  | _ => []

/-- The requests that are raised, in order. -/
def raisedIn (s : Simulation ω) (acts : List Act) : List Request := s.gather raisedBy acts

/-- Requests that were in the queue or were raised were acted on, in this order, or are still in
the queue. -/
def RequestLaw (s : Simulation ω) (acts : List Act) : Prop :=
  s.Conserves (fun s => s.level.pending) (fun _ => Act.routed) raisedBy acts

theorem requestLaw_one (hturn : a.isTurn = false) (htake : a ≠ .takeRequest)
    (hdrop : a ≠ .terminateAll) (hroute : a.routed = []) : s.RequestLaw [a] := by
  have hraised : s.raisedBy a = [] := by
    cases a with
    | turn h => cases hturn
    | _ => rfl
  refine conserves_one ?_
  rw [hroute, hraised, pending_of_act hturn htake hdrop, List.append_nil, List.nil_append]

theorem requestLaw_request {r : Request} {rest : List Request} (hp : s.level.pending = r :: rest) :
    s.RequestLaw [.takeRequest, .route r] := by
  show [r] ++ ((s.act .takeRequest).route r).2.level.pending = s.level.pending ++ []
  rw [pending_route, hp, List.append_nil]
  show [r] ++ s.level.pending.tail = _
  rw [hp]
  rfl

theorem requestLaw_turn (s : Simulation ω) (h : Handle) : s.RequestLaw [.turn h] :=
  conserves_one (s.pending_of_turn h)

theorem requestLaw_visitActs (s : Simulation ω) (h : Handle) : s.RequestLaw (s.visitActs h) := by
  refine conserves_of_forall fun a ha t => ?_
  rcases mem_visitActs ha with rfl | rfl
  · exact t.requestLaw_turn h
  · exact requestLaw_one rfl (by simp) (by simp) rfl

theorem requestLaw_settleActs (left : Nat) (s : Simulation ω) :
    s.RequestLaw (s.settleActs left) := by
  refine settleActs_induct (P := RequestLaw) (fun hx hy => hx.append hy)
    (fun s r rest hp => requestLaw_request hp) (fun s h rest _ => ?_) (fun s h rest _ => ?_)
    (fun s _ _ => ?_) left s
  · have hfront : s.RequestLaw [.takeReady] := requestLaw_one rfl (by simp) (by simp) rfl
    exact hfront.append (s.dropReady.requestLaw_visitActs h)
  · exact requestLaw_one rfl (by simp) (by simp) rfl
  · refine conserves_of_forall fun a ha t => ?_
    rcases mem_reapActs ha with rfl | ⟨h, rfl⟩ <;> exact requestLaw_one rfl (by simp) (by simp) rfl

theorem requestLaw_tickActs (s : Simulation ω) : s.RequestLaw s.tickActs := by
  unfold tickActs
  split
  · exact conserves_nil s
  · have hfront : s.RequestLaw [.tick] := requestLaw_one rfl (by simp) (by simp) rfl
    exact hfront.append (passActs_induct (P := RequestLaw) conserves_nil (fun hx hy => hx.append hy)
      requestLaw_visitActs requestLaw_settleActs _ _ _)

end Simulation

namespace Operation

variable {ω : Type} [Host ω] {s : Simulation ω} {op : Operation}

open Simulation

/-- The request that an operation passes on by itself. -/
def asked (s : Simulation ω) : Operation → List Request
  | request r => if s.level.isReplica then [] else [r]
  | _ => []

theorem requestLaw_acts (hrequest : ∀ r, op ≠ .request r) (hdrop : op ≠ .terminateAll) :
    s.RequestLaw (op.acts s) := by
  refine acts_induct (P := RequestLaw) conserves_nil
    (fun hx hy => hx.append hy) (fun s a ha => ?_) (fun s => s.requestLaw_settleActs _) s
    fun _ => s.requestLaw_tickActs
  refine requestLaw_one ha.isTurn ?_ ?_ ?_
  all_goals
    cases op with
    | begin => rcases ha with rfl | ⟨_, rfl⟩ | ⟨_, rfl⟩ | ⟨_, rfl⟩ <;> simp [Act.routed]
    | request r => exact absurd rfl (hrequest r)
    | terminateAll => exact absurd rfl hdrop
    | tick => exact ha.elim
    | startKind => obtain ⟨_, rfl⟩ := ha; simp [Act.routed]
    | putFirst => obtain ⟨_, rfl⟩ := ha; simp [Act.routed]
    | putLast => obtain ⟨_, rfl⟩ := ha; simp [Act.routed]
    | _ => cases ha; simp [Act.routed]

/-- All that an operation acts on is what it passes on itself, and then what turns raise. -/
theorem routed_acts (hl : s.level.AtRest) (op : Operation) :
    s.routedIn (op.acts s) = op.asked s ++ s.raisedIn (op.acts s) := by
  have hquiet : (s.actAll (op.acts s)).level.pending = [] := by
    rw [← op.run_eq_acts]
    exact (hl.run op).quiet.1
  have hrouted (hb : s.RequestLaw (op.acts s)) :
      s.routedIn (op.acts s) = s.raisedIn (op.acts s) := by
    rwa [RequestLaw, Conserves, hquiet, hl.quiet.1, List.append_nil, List.nil_append] at hb
  cases op with
  | request r =>
    rw [acts] at hquiet ⊢
    unfold asked
    split
    · rfl
    · rename_i hrole
      rw [if_neg hrole] at hquiet
      have hb : (s.route r).2.RequestLaw (s.route r).2.settledActs :=
        (s.route r).2.requestLaw_settleActs maxFirstTurns
      rw [actAll_cons, show s.act (.route r) = (s.route r).2 from rfl] at hquiet
      rw [RequestLaw, Conserves, hquiet, pending_route, hl.quiet.1, List.append_nil,
        List.nil_append] at hb
      exact congrArg (r :: ·) hb
  | terminateAll => rfl
  | _ => exact hrouted (requestLaw_acts (by simp) (by simp))

/-- **Requests are acted on in order, once each, and never in the middle of a turn.** In every
operation on a level that calls lead to, no request is in the queue when an instance takes its
turn, and the turn acts on none. Right after it, and after the removal of the instance if it has
ended, all that it raised is taken out of the queue and acted on in order, and nobody executes
until this is done. Altogether, what is acted on is what the operation passes on itself, followed
by all that turns raise. At the end of the operation none is left. -/
theorem requests_in_order (hs : s.level.Reachable Level.Fresh fun _ => True) (op : Operation) :
    (∀ xs h ys, op.acts s = xs ++ .turn h :: ys →
      (s.actAll xs).level.pending = [] ∧ (s.actAll xs).TurnsAlone h ∧
      ((s.actAll xs).act (.turn h)).level.pending = (s.actAll xs).raised h ∧
      (∃ zs, ys = (if (s.actAll xs).endsIn h then [.remove h] else []) ++
        handling ((s.actAll xs).raised h) ++ zs) ∧
      ∀ us a vs, (s.actAll xs).aftermath h = us ++ a :: vs →
        (((s.actAll xs).act (.turn h)).actAll us).Idles a) ∧
    s.routedIn (op.acts s) = op.asked s ++ s.raisedIn (op.acts s) ∧
    (op.run s).2 = s.actAll (op.acts s) ∧ (op.run s).2.level.pending = [] := by
  have hl := hs.atRest
  refine ⟨fun xs h ys hacts => ?_, routed_acts hl op, op.run_eq_acts s, (hl.run op).quiet.1⟩
  obtain ⟨hpending, zs, hzs⟩ := (drains_acts hl op).at hacts h rfl
  have hl' := sound_actAll hl.sound xs
  refine ⟨hpending, turnsAlone hl' h, ?_, ⟨zs, hzs.symm⟩, fun us a vs hafter => ?_⟩
  · rw [pending_of_turn, hpending, List.nil_append]
  · have hmem : a ∈ (s.actAll xs).aftermath h := by
      rw [hafter]
      exact List.mem_append_right us List.mem_cons_self
    exact idles (sound_actAll (sound_act hl' _) us) (isTurn_aftermath _ h a hmem)

end Operation

namespace Delegating

open Simulation

/-- Script 1 asks for a start of script 2 and then for its end, and ends itself. -/
def program : Program :=
  { (default : Program) with
    image := #[10, 0, 0, 0, 80, 0, 0, 0, 2, 0, 0, 0, 0, 0, 0, 0,
      10, 0, 0, 0, 82, 0, 0, 0, 2, 0, 0, 0, 0, 0, 0, 0, 1, 0, 0, 0]
    layout := .enhanced .wide
    scripts := [{ (default : Script) with number := 1 },
      { (default : Script) with number := 2, entry := 32 }] }

def idle : Simulation StillWorld := ⟨.start program 1 .standard, .empty, default, default⟩

def started : Simulation StillWorld := (idle.start { script := 1 }).2

theorem facts :
    (started.level.pending = [] ∧ started.level.ready = [⟨0, 0⟩] ∧
      (started.dropReady.level.instance? ⟨0, 0⟩).map (started.dropReady.isDue ·) = some true) ∧
    started.dropReady.endsIn ⟨0, 0⟩ = true ∧
    started.dropReady.raised ⟨0, 0⟩ =
      [.execute 0 2 .zero false none none .front, .terminate 0 2] := by
  decide +kernel

theorem exists_acts :
    ∃ ys, Operation.acts idle (.launch { script := 1 }) =
      [.start { script := 1 }, .takeReady] ++ Act.turn ⟨0, 0⟩ :: ys := by
  obtain ⟨⟨hpending, hready, hwaits⟩, -⟩ := facts
  obtain ⟨i, hi, hdue⟩ := Option.map_eq_some_iff.mp hwaits
  obtain ⟨more, hvisit⟩ := visitActs_of_due hi hdue
  have hacts := Operation.acts_launch (s := idle) rfl hpending hready
  rw [started] at hvisit
  rw [hacts, hvisit]
  exact ⟨_, rfl⟩

/-- Script 1 is removed, and then its two requests are acted on. -/
theorem requests_in_order_delegating :
    idle.level.Reachable Level.Fresh (fun _ => True) ∧
    ∃ ys zs, Operation.acts idle (.launch { script := 1 }) =
        [.start { script := 1 }, .takeReady] ++ Act.turn ⟨0, 0⟩ :: ys ∧
      ys = [.remove ⟨0, 0⟩, .takeRequest, .route (.execute 0 2 .zero false none none .front),
        .takeRequest, .route (.terminate 0 2)] ++ zs := by
  have hidle : idle.level.Reachable Level.Fresh fun _ => True :=
    .origin (.start program 1 .standard)
  obtain ⟨-, hends, hraised⟩ := facts
  obtain ⟨ys, hacts⟩ := exists_acts
  obtain ⟨-, -, -, ⟨zs, hys⟩, -⟩ :=
    (Operation.requests_in_order hidle (.launch { script := 1 })).1 _ _ ys hacts
  rw [show idle.actAll [.start { script := 1 }, .takeReady] = started.dropReady from rfl, hends,
    hraised] at hys
  exact ⟨hidle, ys, zs, hacts, hys⟩

end Delegating

end LevelScript
