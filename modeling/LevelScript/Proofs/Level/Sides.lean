import LevelScript.Proofs.Level.Pairs
import LevelScript.Proofs.Level.Pass

/-!
# Two levels side by side

Two simulations whose programs have the same instructions, maybe at other offsets, and whose hosts
answer alike. A `Link` says what may differ between them. Each part of an operation, done on both
sides, gives the same results and leaves the sides alike.

* `Link.Fair`: the programs and hosts do the same.
* `Simulation.Beside`: the sides are alike, and their instances are the pairs given.
* `follows_start`, `follows_route`, `survives_visit`, `survives_remove`: one lemma for each part.
-/

namespace LevelScript

/-! ## Staying inside the code -/

/-- A turn of an instance fetches only at offsets inside. -/
def Simulation.TurnWithin {ω : Type} [Host ω] (inside : UInt32 → Prop) (s : Simulation ω)
    (h : Handle) : Prop :=
  ∀ i, s.level.instance? h = some i → (s.nextStatus i.status).1 = .running →
    ((s.nextStatus i.status).2.machine
      { i with lastTick := s.level.tick, status := .running }).RunWithin inside s.level.program
        s.level.config

def Act.Within {ω : Type} [Host ω] (inside : UInt32 → Prop) (s : Simulation ω) : Act → Prop
  | .turn h => s.TurnWithin inside h
  | _ => True

/-- All turns among the acts fetch only at offsets inside. -/
def Simulation.Within {ω : Type} [Host ω] (inside : UInt32 → Prop) (s : Simulation ω) :
    List Act → Prop
  | [] => True
  | a :: rest => a.Within inside s ∧ (s.act a).Within inside rest

section Decide

variable {ω : Type} [Host ω] (inside : UInt32 → Prop) [DecidablePred inside]

instance (s : Simulation ω) (h : Handle) : Decidable (s.TurnWithin inside h) :=
  match hi : s.level.instance? h with
  | none => .isTrue fun _ heq => by simp [hi] at heq
  | some i => decidable_of_iff ((s.nextStatus i.status).1 = .running →
      ((s.nextStatus i.status).2.machine
        { i with lastTick := s.level.tick, status := .running }).RunWithin inside s.level.program
          s.level.config)
      ⟨fun hrun j hj => Option.some.inj (hi.symm.trans hj) ▸ hrun, fun hall => hall i hi⟩

instance (s : Simulation ω) : (a : Act) → Decidable (a.Within inside s)
  | .turn h => inferInstanceAs (Decidable (s.TurnWithin inside h))
  | .tick | .takeRequest | .takeReady | .takeDeferred | .reap | .note _ | .route _ | .start _
  | .deliver _ | .setStatus _ _ | .postpone _ | .remove _ | .putFirst _ | .putLast _ | .setVar _ _
  | .setElement _ _ _ | .terminateAll => .isTrue trivial

instance decidableWithin : (s : Simulation ω) → (acts : List Act) →
    Decidable (s.Within inside acts)
  | _, [] => .isTrue trivial
  | s, a :: rest =>
    have := decidableWithin (s.act a) rest
    inferInstanceAs (Decidable (_ ∧ _))

end Decide

theorem Simulation.within_append {ω : Type} [Host ω] {inside : UInt32 → Prop} (s : Simulation ω)
    (xs ys : List Act) :
    s.Within inside (xs ++ ys) ↔ s.Within inside xs ∧ (s.actAll xs).Within inside ys := by
  induction xs generalizing s with
  | nil => simp [Within]
  | cons a rest ih => simp only [List.cons_append, Within, actAll_cons, ih, and_assoc]

/-! ## Links -/

/-- Scripts that differ at most in the offset of their first instruction. -/
structure Script.Alike (P : UInt32 → UInt32 → Prop) (s t : Script) : Prop where
  same : t = { s with entry := t.entry }
  entry : P s.entry t.entry

/-- What may differ between two simulations. -/
structure Link (ω₁ ω₂ : Type) where
  /-- Offsets of the same instruction. -/
  pcs : UInt32 → UInt32 → Prop
  /-- Offsets on the left at which both programs have the same instruction. -/
  inside : UInt32 → Prop
  worlds : ω₁ → ω₂ → Prop
  left : Program
  right : Program
  config : Config
  /-- Whether even the handles are the same. -/
  sameHandles : Prop

namespace Link

variable {ω₁ ω₂ : Type}

/-- Turns are taken on an empty stack. -/
def coupling (k : Link ω₁ ω₂) (origin : Instance) : Coupling ω₁ ω₂ where
  pcs := k.pcs
  worlds := k.worlds
  faults _ _ := True
  journals _ _ := True
  left := ⟨k.left, k.config, 0⟩
  right := ⟨k.right, k.config, 0⟩
  leftBelow := []
  rightBelow := []
  slack := False
  origin := origin

/-- Hosts answer alike, and programs have the same scripts, functions, texts and instructions. -/
structure Fair [Host ω₁] [Host ω₂] (k : Link ω₁ ω₂) : Prop where
  hosts : Host.Alike k.worlds
  texts : ∀ i, k.left.text? i k.config.locale = k.right.text? i k.config.locale
  functions : ∀ index, Option.Rel (Function.Alike k.pcs) (k.left.function? index)
    (k.right.function? index)
  scripts : ∀ n, Option.Rel (Script.Alike k.pcs) (k.left.findScript n) (k.right.findScript n)
  kinds : ∀ kind, k.left.scriptsOfKind kind = k.right.scriptsOfKind kind
  instructions : ∀ origin p q, k.pcs p q → k.inside p → (k.coupling origin).SameInstruction p q

theorem Fair.coupling [Host ω₁] [Host ω₂] {k : Link ω₁ ω₂} (hk : k.Fair) (origin : Instance) :
    (k.coupling origin).Fair where
  hosts := hk.hosts
  leftBase := rfl
  rightBase := rfl
  room := Nat.le_refl _
  tight _ := rfl
  text := hk.texts
  functions := hk.functions
  faults _ _ _ := trivial
  notes _ _ _ _ _ _ := trivial
  remarks _ _ _ _ := trivial

theorem Fair.findScript_none [Host ω₁] [Host ω₂] {k : Link ω₁ ω₂} (hk : k.Fair) {n : Int32}
    (h : k.left.findScript n = none) : k.right.findScript n = none := by
  have hrel := hk.scripts n
  rw [h] at hrel
  generalize k.right.findScript n = y at hrel
  cases hrel
  rfl

theorem Fair.findScript_some [Host ω₁] [Host ω₂] {k : Link ω₁ ω₂} (hk : k.Fair) {n : Int32}
    {s : Script} (h : k.left.findScript n = some s) :
    ∃ t, k.right.findScript n = some t ∧ s.Alike k.pcs t := by
  have hrel := hk.scripts n
  rw [h] at hrel
  generalize k.right.findScript n = y at hrel
  cases hrel with
  | some hst => exact ⟨_, rfl, hst⟩

end Link

theorem Script.Alike.start {P : UInt32 → UInt32 → Prop} {s t : Script} (h : s.Alike P t)
    (least : Nat) (args : List Int32) (activator : Option Actor) (line : Option Line)
    (side : Side) :
    (Instance.start s least args activator line side).Alike P
      (Instance.start t least args activator line side) := by
  obtain ⟨same, entry⟩ := h
  rw [same]
  exact ⟨rfl, entry, entry, .nil⟩

/-! ## Sides that are alike -/

/-- Levels on the two sides of a link: the same but for programs, handles and offsets. -/
structure Level.Beside {ω₁ ω₂ : Type} (k : Link ω₁ ω₂) (ps : List Level.Pair)
    (l₁ l₂ : Level) : Prop where
  matched : Level.Matched k.sameHandles k.pcs ps l₁ l₂
  program₁ : l₁.program = k.left
  program₂ : l₂.program = k.right
  config₁ : l₁.config = k.config
  config₂ : l₂.config = k.config
  map : l₂.map = l₁.map
  memory : l₂.memory = l₁.memory
  stack₁ : l₁.stack = #[]
  stack₂ : l₂.stack = #[]
  tick : l₂.tick = l₁.tick
  pending : l₂.pending = l₁.pending
  reapPending : l₂.reapPending = l₁.reapPending
  ready : List.Forall₂ (Level.Stands ps) l₁.ready l₂.ready
  nodup : l₁.ready.Nodup

/-- Simulations on the two sides of a link. -/
structure Simulation.Beside {ω₁ ω₂ : Type} (k : Link ω₁ ω₂) (ps : List Level.Pair)
    (s₁ : Simulation ω₁) (s₂ : Simulation ω₂) : Prop where
  level : s₁.level.Beside k ps s₂.level
  session : s₂.session = s₁.session
  world : k.worlds s₁.world s₂.world

/-- The sides are alike after a change in which no pair is lost. -/
def Simulation.Follows {ω₁ ω₂ : Type} (k : Link ω₁ ω₂) (ps : List Level.Pair)
    (s₁ : Simulation ω₁) (s₂ : Simulation ω₂) : Prop :=
  ∃ qs, s₁.Beside k qs s₂ ∧ ∀ a b, Level.Stands ps a b → Level.Stands qs a b

theorem forall₂_imp_of_mem {α β : Type} {R S : α → β → Prop} {xs : List α} {ys : List β}
    (h : List.Forall₂ R xs ys) (himp : ∀ x y, x ∈ xs → R x y → S x y) : List.Forall₂ S xs ys := by
  induction h with
  | nil => exact .nil
  | cons hxy _ ih =>
    exact .cons (himp _ _ List.mem_cons_self hxy)
      (ih fun x y hx => himp x y (List.mem_cons_of_mem _ hx))

namespace Simulation

open Level (Stands Matched)

variable {ω₁ ω₂ : Type} {k : Link ω₁ ω₂} {ps qs : List Level.Pair}
  {s₁ s₁' : Simulation ω₁} {s₂ s₂' : Simulation ω₂} {a b : Handle}

/-- The instance that is there when a script is to be started. -/
def known {ω : Type} (s : Simulation ω) (always : Bool) (n : Int32) : Option (Handle × Instance) :=
  (if always then none else s.level.find? n).bind fun h => (s.level.instance? h).map (h, ·)

/-- The sides are alike after a change in which pairs are lost only when their instances are. -/
def Survives (k : Link ω₁ ω₂) (ps : List Level.Pair) (s₁ : Simulation ω₁) (s₂ : Simulation ω₂) :
    Prop :=
  ∃ qs, s₁.Beside k qs s₂ ∧ ∀ x y, Stands ps x y →
    Stands qs x y ∨ (s₁.level.instance? x = none ∧ s₂.level.instance? y = none)

theorem Follows.survives (h : s₁.Follows k ps s₂) : s₁.Survives k ps s₂ := by
  obtain ⟨qs, hbeside, hqs⟩ := h
  exact ⟨qs, hbeside, fun x y hxy => .inl (hqs x y hxy)⟩

theorem remove_of_some {ω : Type} {s : Simulation ω} {h : Handle} {i : Instance}
    (hi : s.level.instance? h = some i) :
    s.remove h = (s.modifyLevel (·.remove h)).note (.finished i.number) := by
  rw [remove, hi]

theorem promoteIfTracked_eq {l₁ l₂ : Level} (h : Matched k.sameHandles k.pcs ps l₁ l₂)
    (st : Status) : promoteIfTracked l₂ st = promoteIfTracked l₁ st := by
  unfold promoteIfTracked
  split
  · rw [h.isTracked_eq]
  · rfl

section Alike

variable (h : s₁.Beside k ps s₂)

include h

namespace Beside

theorem matched : Matched k.sameHandles k.pcs ps s₁.level s₂.level :=
  h.level.matched

/-- Journals do not matter. -/
theorem note (d e : Diagnostic) : (s₁.note d).Beside k ps (s₂.note e) :=
  ⟨h.level, h.session, h.world⟩

/-- New instances in the queue live. -/
theorem live_of_ready (ha : a ∈ s₁.level.ready) :
    ∃ i, s₁.level.instance? a = some i := by
  have hready := h.level.ready
  generalize s₂.level.ready = ys at hready
  generalize s₁.level.ready = xs at hready ha
  induction hready with
  | nil => exact absurd ha List.not_mem_nil
  | cons hxy _ ih =>
    rcases List.mem_cons.mp ha with rfl | ha
    · obtain ⟨i, -, hi, -, -⟩ := h.matched.find hxy
      exact ⟨i, hi⟩
    · exact ih ha

theorem follows : s₁.Follows k ps s₂ := ⟨ps, h, fun _ _ hab => hab⟩

/-- Sides with other instances that stay the same in all else. -/
theorem withMatched (hm : Matched k.sameHandles k.pcs qs s₁'.level s₂'.level)
    (h₁ : s₁'.level = { s₁.level with
      roster := s₁'.level.roster, tracked := s₁'.level.tracked })
    (h₂ : s₂'.level = { s₂.level with
      roster := s₂'.level.roster, tracked := s₂'.level.tracked })
    (hqs : ∀ a b, a ∈ s₁.level.ready → Stands ps a b → Stands qs a b)
    (session₁ : s₁'.session = s₁.session) (session₂ : s₂'.session = s₂.session)
    (world₁ : s₁'.world = s₁.world) (world₂ : s₂'.world = s₂.world) : s₁'.Beside k qs s₂' := by
  have hl := h.level
  refine ⟨?_, session₂.trans (h.session.trans session₁.symm), ?_⟩
  · have hready := forall₂_imp_of_mem hl.ready hqs
    rw [h₁, h₂] at hm ⊢
    exact { hl with matched := hm, ready := hready }
  · rw [world₁, world₂]
    exact h.world

end Beside

/-! ## Statuses and new instances -/

theorem follows_setStatus (n : Int32) (st : Status) :
    (s₂.setStatus n st).1 = (s₁.setStatus n st).1 ∧
      (s₁.setStatus n st).2.Follows k ps (s₂.setStatus n st).2 := by
  simp only [setStatus, Level.setStatus]
  cases hfind : s₁.level.find? n with
  | none =>
    rw [h.matched.find?_none hfind]
    exact ⟨rfl, h.follows⟩
  | some a =>
    obtain ⟨b, hb, hab⟩ := h.matched.find?_some hfind
    obtain ⟨i, j, hi, hj, hij⟩ := h.matched.find hab
    simp only [hb, hi, hj, hij.status_eq]
    split
    · exact ⟨rfl, h.follows⟩
    · obtain ⟨qs, hm, hqs⟩ := h.matched.modify hab (f := ({ · with status := st }))
        (g := ({ · with status := st })) (fun _ _ _ _ hij => hij.setStatus st) fun _ _ => rfl
      have hkeep : ∀ x y, Stands ps x y → Stands qs x y := fun x y => (hqs x y).mpr
      refine ⟨rfl, qs, ⟨?_, h.session, h.world⟩, hkeep⟩
      exact { h.level with
        matched := hm _ _ rfl rfl rfl rfl
        reapPending := congrArg (· || st.isTerminal) h.level.reapPending
        ready := h.level.ready.imp hkeep }

theorem known_cases (always : Bool) (n : Int32) :
    (s₁.known always n = none ∧ s₂.known always n = none) ∨
      ∃ a b i j, s₁.known always n = some (a, i) ∧ s₂.known always n = some (b, j) ∧
        Stands ps a b ∧ i.Alike k.pcs j := by
  unfold known
  cases always with
  | true => exact .inl ⟨rfl, rfl⟩
  | false =>
    simp only [Bool.false_eq_true, if_false]
    cases hfind : s₁.level.find? n with
    | none => exact .inl ⟨rfl, by rw [h.matched.find?_none hfind]; rfl⟩
    | some a =>
      obtain ⟨b, hb, hab⟩ := h.matched.find?_some hfind
      obtain ⟨i, j, hi, hj, hij⟩ := h.matched.find hab
      exact .inr ⟨a, b, i, j, by simp [hi], by simp [hb, hj], hab, hij⟩

theorem follows_enlist {script script' : Script} (hs : script.Alike k.pcs script') (p : Launch) :
    (s₁.enlist script p).Follows k ps (s₂.enlist script' p) := by
  have hl := h.level
  let i := Instance.start script k.config.scriptLocals p.args.toList p.activator p.line p.side
  let j := Instance.start script' k.config.scriptLocals p.args.toList p.activator p.line p.side
  obtain ⟨qs, hm, hqs⟩ := h.matched.add (i := i) (j := j) (hs.start _ _ _ _ _) p.always
  have hkeep : ∀ x y, Stands ps x y → Stands qs x y := fun x y hxy => (hqs x y).mpr (.inl hxy)
  have hready := hl.ready.imp hkeep
  have hnew : Stands qs (s₁.level.add i p.always).1 (s₂.level.add j p.always).1 :=
    (hqs _ _).mpr (.inr ⟨rfl, rfl⟩)
  -- New instances in the queue live already, so the newest has another handle.
  have hnot : (s₁.level.add i p.always).1 ∉ s₁.level.ready := by
    intro hmem
    obtain ⟨x, hx⟩ := h.live_of_ready hmem
    rw [Level.fst_add] at hx
    exact absurd (hx.symm.trans (Roster.instance?_fst_add h.matched.sound₁.roster i)) (by simp)
  have h₁ : (s₁.enlist script p).level = { (s₁.level.add i p.always).2 with
      ready := if p.deferStart then s₁.level.ready
        else s₁.level.ready ++ [(s₁.level.add i p.always).1] } := by
    rw [level_enlist, hl.config₁]
  have h₂ : (s₂.enlist script' p).level = { (s₂.level.add j p.always).2 with
      ready := if p.deferStart then s₂.level.ready
        else s₂.level.ready ++ [(s₂.level.add j p.always).1] } := by
    rw [level_enlist, hl.config₂]
  refine ⟨qs, ⟨?_, h.session, h.world⟩, hkeep⟩
  rw [h₁, h₂]
  rw [Level.add_frame s₁.level, Level.add_frame s₂.level] at hm ⊢
  refine { hl with matched := hm.congr rfl rfl rfl rfl, ready := ?_, nodup := ?_ }
  · dsimp only
    split
    · exact hready
    · exact List.rel_append hready (.cons hnew .nil)
  · dsimp only
    split
    · exact hl.nodup
    · rw [List.nodup_append]
      refine ⟨hl.nodup, List.nodup_singleton _, fun x hx y hy heq => hnot ?_⟩
      rw [← List.mem_singleton.mp hy, ← heq]
      exact hx

theorem alike_machine {i j : Instance} (hij : i.Alike k.pcs j) :
    (k.coupling i).Alike (s₁.machine i) (s₂.machine j) where
  inst := hij
  origin := .refl _
  status _ hn := hn
  slots := ⟨[], [], by simp [machine, h.level.stack₁, Link.coupling],
    by simp [machine, h.level.stack₂, Link.coupling], .nil⟩
  memory := h.level.memory.symm
  session := h.session.symm
  requests := rfl
  world := h.world
  journal := trivial

/-! ## Removals -/

theorem beside_remove (hab : Stands ps a b) (hready : a ∉ s₁.level.ready) :
    ∃ qs, (s₁.remove a).Beside k qs (s₂.remove b) ∧
      ∀ x y, Stands qs x y ↔ Stands ps x y ∧ x ≠ a := by
  obtain ⟨i, j, hi, hj, hij⟩ := h.matched.find hab
  obtain ⟨qs, hm, hqs⟩ := h.matched.remove hab
  rw [remove_of_some hi, remove_of_some hj]
  refine ⟨qs, Beside.note ?_ _ _, hqs⟩
  refine h.withMatched hm ?_ ?_ (fun x y hx hxy => (hqs x y).mpr ⟨hxy, ?_⟩) rfl rfl rfl rfl
  · exact Level.remove_keeps s₁.level a
  · exact Level.remove_keeps s₂.level b
  · rintro rfl
    exact hready hx

theorem survives_remove (hab : Stands ps a b)
    (hready : a ∉ s₁.level.ready) : (s₁.remove a).Survives k ps (s₂.remove b) := by
  obtain ⟨qs, hbeside, hqs⟩ := beside_remove h hab hready
  refine ⟨qs, hbeside, fun x y hxy => ?_⟩
  by_cases hx : x = a
  · have hy := (h.matched.stands_iff hab hxy).mp hx
    exact .inr ⟨instance?_remove_eq_none h.matched.sound₁ a (.inl hx),
      instance?_remove_eq_none h.matched.sound₂ b (.inl hy)⟩
  · exact .inl ((hqs x y).mpr ⟨hxy, hx⟩)

end Alike

/-! ## Starts -/

variable [Host ω₁] [Host ω₂] (hk : k.Fair) (h : s₁.Beside k ps s₂)

include hk h

theorem follows_start (p : Launch) :
    (s₂.start p).1 = (s₁.start p).1 ∧ (s₁.start p).2.Follows k ps (s₂.start p).2 := by
  unfold start
  rw [h.level.program₁, h.level.program₂]
  cases hscript : k.left.findScript p.script with
  | none =>
    rw [hk.findScript_none hscript]
    exact ⟨rfl, (h.note _ _).follows⟩
  | some script =>
    obtain ⟨script', hscript', halike⟩ := hk.findScript_some hscript
    rw [hscript']
    dsimp only
    rcases known_cases h p.always p.script with ⟨h₁, h₂⟩ | ⟨a, b, i, j, h₁, h₂, hab, hij⟩
      <;> simp only [known] at h₁ h₂
    · rw [h₁, h₂]
      exact ⟨rfl, follows_enlist h halike p⟩
    · rw [h₁, h₂]
      simp only [hij.status_eq]
      split
      · obtain ⟨qs, hm, hqs⟩ := h.matched.modify hab (f := ({ · with status := .running }))
          (g := ({ · with status := .running })) (fun _ _ _ _ hij => hij.setStatus .running)
          fun _ _ => rfl
        have hkeep : ∀ x y, Stands ps x y → Stands qs x y := fun x y => (hqs x y).mpr
        exact ⟨rfl, qs, h.withMatched (hm _ _ rfl rfl rfl rfl) rfl rfl (fun x y _ => hkeep x y)
          rfl rfl rfl rfl, hkeep⟩
      · exact ⟨rfl, h.follows⟩

/-! ## Requests -/

theorem beside_ask (c : Call) :
    (s₂.ask c).1 = (s₁.ask c).1 ∧ (s₁.ask c).2.Beside k ps (s₂.ask c).2 := by
  obtain ⟨hreply, hworld⟩ := hk.hosts c s₁.world s₂.world h.world
  exact ⟨hreply.symm, h.level, h.session, hworld⟩

theorem beside_playerOf (activator : Option Actor) :
    (s₂.playerOf activator).1 = (s₁.playerOf activator).1 ∧
      (s₁.playerOf activator).2.Beside k ps (s₂.playerOf activator).2 := by
  cases activator with
  | none => exact ⟨rfl, h⟩
  | some a => exact beside_ask hk h _

theorem beside_actorOf (player : Option UInt8) :
    (s₂.actorOf player).1 = (s₁.actorOf player).1 ∧
      (s₁.actorOf player).2.Beside k ps (s₂.actorOf player).2 := by
  cases player with
  | none => exact ⟨rfl, h⟩
  | some p => exact beside_ask hk h _

theorem beside_deferredEntry (r : Request) :
    (s₂.deferredEntry r).1 = (s₁.deferredEntry r).1 ∧
      (s₁.deferredEntry r).2.Beside k ps (s₂.deferredEntry r).2 := by
  cases r with
  | execute map script args always activator line side =>
    obtain ⟨hplayer, hbeside⟩ := beside_playerOf hk h activator
    simp only [deferredEntry]
    rw [hplayer]
    exact ⟨rfl, hbeside⟩
  | suspend map script => exact ⟨rfl, h⟩
  | terminate map script => exact ⟨rfl, h⟩

theorem follows_route (r : Request) :
    (s₂.route r).1 = (s₁.route r).1 ∧ (s₁.route r).2.Follows k ps (s₂.route r).2 := by
  unfold route
  rw [h.level.map]
  split
  · obtain ⟨hentry, hbeside⟩ := beside_deferredEntry hk h r
    dsimp only
    rw [hentry]
    refine ⟨rfl, Beside.follows ⟨hbeside.level, ?_, hbeside.world⟩⟩
    exact congrArg (Session.defer · _) hbeside.session
  · cases r with
    | execute => exact follows_start hk h _
    | suspend => exact follows_setStatus h _ _
    | terminate => exact follows_setStatus h _ _

theorem follows_deliver (e : DeferredEntry) :
    (s₁.deliver e).Follows k ps (s₂.deliver e) := by
  have hnone : (s₂.level.program.findScript e.script).isNone =
      (s₁.level.program.findScript e.script).isNone := by
    rw [h.level.program₁, h.level.program₂]
    cases hscript : k.left.findScript e.script with
    | none => rw [hk.findScript_none hscript]
    | some script =>
      obtain ⟨script', hscript', -⟩ := hk.findScript_some hscript
      rw [hscript']
      rfl
  unfold deliver
  rw [hnone]
  split
  · exact (h.note _ _).follows
  · obtain ⟨hactor, hbeside⟩ := beside_actorOf hk h e.player
    cases e.action with
    | suspend => exact (follows_setStatus h _ _).2
    | terminate => exact (follows_setStatus h _ _).2
    | execute =>
      dsimp only
      rw [hactor]
      exact (follows_start hk hbeside _).2
    | executeAlways =>
      dsimp only
      rw [hactor]
      exact (follows_start hk hbeside _).2

/-! ## Turns -/

theorem beside_nextStatus (st : Status) :
    (s₂.nextStatus st).1 = (s₁.nextStatus st).1 ∧
      (s₁.nextStatus st).2.Beside k ps (s₂.nextStatus st).2 := by
  unfold nextStatus
  split
  · exact ⟨rfl, h⟩
  · obtain ⟨hbusy, hbeside⟩ := beside_ask hk h (.sectorBusy ‹_›)
    dsimp only
    rw [hbusy]
    exact ⟨rfl, hbeside⟩
  · obtain ⟨hbusy, hbeside⟩ := beside_ask hk h (.polyobjBusy ‹_›)
    dsimp only
    rw [hbusy]
    exact ⟨rfl, hbeside⟩
  · exact ⟨promoteIfTracked_eq h.matched _, h⟩

theorem beside_dispatch {i j : Instance} (hij : i.Alike k.pcs j)
    (hw : (s₁.machine i).RunWithin k.inside s₁.level.program s₁.level.config) :
    (s₁.dispatch i).1.Alike k.pcs (s₂.dispatch j).1 ∧
      (s₁.dispatch i).2.Beside k ps (s₂.dispatch j).2 := by
  have hl := h.level
  rw [dispatch_eq, dispatch_eq]
  rw [hl.program₁, hl.config₁] at hw ⊢
  rw [hl.program₂, hl.config₂]
  obtain ⟨-, halike, hstack₁, hstack₂⟩ := Coupling.alike_run (hk.coupling i) k.inside
    (hk.instructions i) (UInt32.le_refl _) (fun _ => ⟨id, rfl⟩) (alike_machine h hij)
    (by simp [machine, hl.stack₁, Link.coupling]) (by simp [machine, hl.stack₂, Link.coupling]) hw
  simp only [Link.coupling] at halike hstack₁ hstack₂ ⊢
  generalize (Machine.run k.left k.config (s₁.machine i)) = r₁ at halike hstack₁ ⊢
  generalize (Machine.run k.right k.config (s₂.machine j)) = r₂ at halike hstack₂ ⊢
  refine ⟨?_, ?_, halike.session.symm, halike.world⟩
  · have hstatus : promoteIfTracked { s₂.level with
        stack := r₂.2.stack, memory := r₂.2.memory
        pending := s₂.level.pending ++ r₂.2.requests.toList } r₂.2.inst.status =
        promoteIfTracked s₁.level r₁.2.inst.status := by
      rw [halike.status_eq]
      exact promoteIfTracked_eq h.matched _
    rw [hstatus]
    exact halike.inst.setStatus _
  · exact { hl with
      matched := h.matched.congr rfl rfl rfl rfl
      memory := halike.memory.symm
      stack₁ := Array.toList_eq_nil_iff.mp hstack₁
      stack₂ := Array.toList_eq_nil_iff.mp hstack₂
      pending := by
        show s₂.level.pending ++ r₂.2.requests.toList = s₁.level.pending ++ r₁.2.requests.toList
        rw [hl.pending, halike.requests] }

theorem beside_advance {i j : Instance} (hij : i.Alike k.pcs j)
    (hw : (s₁.nextStatus i.status).1 = .running → ((s₁.nextStatus i.status).2.machine
      { i with lastTick := s₁.level.tick, status := .running }).RunWithin k.inside
        s₁.level.program s₁.level.config) :
    (s₁.advance i).1.Alike k.pcs (s₂.advance j).1 ∧
      (s₁.advance i).2.Beside k ps (s₂.advance j).2 := by
  obtain ⟨hstatus, hbeside⟩ := beside_nextStatus hk h i.status
  have hlevel := level_nextStatus s₁ i.status
  have htick : (s₂.nextStatus i.status).2.level.tick = s₁.level.tick := by
    rw [level_nextStatus, h.level.tick]
  unfold advance
  rw [hij.status_eq]
  dsimp only
  rw [hstatus, htick, hlevel]
  have hij' := (hij.setLastTick s₁.level.tick).setStatus (s₁.nextStatus i.status).1
  split
  · rename_i hrunning
    have hturn := hw hrunning
    rw [hrunning] at hij' ⊢
    rw [← hlevel] at hturn hij' ⊢
    exact beside_dispatch hk hbeside hij' hturn
  · exact ⟨hij', hbeside⟩

theorem beside_turn (hab : Stands ps a b) (hw : s₁.TurnWithin k.inside a) :
    ∃ qs, (s₁.turn a).Beside k qs (s₂.turn b) ∧ ∀ x y, Stands qs x y ↔ Stands ps x y := by
  obtain ⟨i, j, hi, hj, hij⟩ := h.matched.find hab
  obtain ⟨hinst, hbeside⟩ := beside_advance hk h hij (hw i hi)
  obtain ⟨hturn, hturned⟩ := advance_spec s₁ i
  have h₁ : s₁.turn a = (s₁.advance i).2.seat a (s₁.advance i).1 := by rw [turn, hi]
  have h₂ : s₂.turn b = (s₂.advance j).2.seat b (s₂.advance j).1 := by rw [turn, hj]
  obtain ⟨qs, hm, hqs⟩ := hbeside.matched.modify hab (f := fun _ => (s₁.advance i).1)
    (g := fun _ => (s₂.advance j).1) (fun _ _ _ _ _ => hinst) fun i' hi' => by
      rw [Level.instance?_congr hturned.roster, hi] at hi'
      rw [hturn.number, Option.some.inj hi']
  rw [h₁, h₂]
  exact ⟨qs, hbeside.withMatched (hm _ _ rfl rfl rfl rfl) rfl rfl
    (fun x y _ => (hqs x y).mpr) rfl rfl rfl rfl, hqs⟩

/-! ## Visits -/

theorem survives_visit (hab : Stands ps a b)
    (hready : a ∉ s₁.level.ready) (hw : s₁.Within k.inside (s₁.visitActs a)) :
    (s₁.visit a).Survives k ps (s₂.visit b) := by
  obtain ⟨i, j, hi, hj, hij⟩ := h.matched.find hab
  have hdue : s₂.isDue j = s₁.isDue i := by
    rw [isDue, isDue, hij.lastTick_eq, h.level.tick]
  rw [← actAll_visitActs, ← actAll_visitActs]
  unfold visitActs at hw ⊢
  rw [hi] at hw ⊢
  rw [hj]
  dsimp only at hw ⊢
  rw [hdue]
  by_cases hd : s₁.isDue i = true
  · rw [if_pos hd] at hw ⊢
    rw [if_pos hd]
    have hturn : s₁.TurnWithin k.inside a := by
      split at hw
      · exact hw.1
      · exact hw.1
    have hstatus := (beside_advance hk h hij (hturn i hi)).1.status_eq
    obtain ⟨qs, hbeside, hqs⟩ := beside_turn hk h hab hturn
    rw [hstatus]
    split
    · have hnot : a ∉ (s₁.turn a).level.ready := by rwa [ready_turn]
      obtain ⟨rs, hbeside', hrs⟩ := survives_remove hbeside ((hqs a b).mpr hab) hnot
      exact ⟨rs, hbeside', fun x y hxy => hrs x y ((hqs x y).mpr hxy)⟩
    · exact ⟨qs, hbeside, fun x y hxy => .inl ((hqs x y).mpr hxy)⟩
  · rw [if_neg hd, if_neg hd]
    exact h.follows.survives

end Simulation

end LevelScript
