import LevelScript.Proofs.World.Replication
import LevelScript.World.Prepared

/-!
# Activators that are gone

An instance keeps the actor that started it, which can be gone by the time the instance uses it.
Each instruction asks whether the actor is alive before it names the actor to the host. A request
keeps the actor as it is, and where the request is filed for another map, the host is asked for
its player without that.

* `Host.Careful`: calls about nobody but one actor, each made while it is alive.
* `Exec.Heeds`: what a computation asks is careful.
* `Exec.heeds_executeWith`: so is what every opcode asks; `Machine.minds_run`: and a whole turn.
* `activator_alive_unless_filed`: every call about an actor, in any play.
-/

namespace LevelScript

/-! ## Whom a call is about -/

def SoundSource.actors : SoundSource → List Actor
  | localAmbient a | actor a => a.toList
  | _ => []

def Effect.actors : Effect → List Actor
  | lineSpecial _ _ activator _ _ => activator.toList
  | clearInventory target | giveInventory target _ _ | takeInventory target _ _
  | print target _ _ | hudMessage target _ | music target _ _ | fade target _ => target.toList
  | sound source _ _ => source.actors
  | _ => []

/-- The actors whom a call is about. Whether an actor is alive can always be asked, and a change
is sent as it was made. -/
def Call.actors : Call → List Actor
  | playerNumber a | actorName a | playerHealth a | playerArmor a | playerFrags a | actorTid a
  | inventoryCount a _ => [a]
  | checkLock a _ => a.toList
  | perform e => e.actors
  | _ => []

namespace Host

variable {ω : Type} [Host ω]

/-- Whether an actor is alive. -/
def alive (w : ω) (a : Actor) : Bool := (answer (.actorAlive a) w).1

/-- Nobody dies or comes to life because something is asked. -/
def Harmless (ω : Type) [Host ω] : Prop :=
  ∀ (c : Call) (w : ω), c.isQuery = true → alive (answer c w).2 = alive w

/-- The world after calls, one after the other. -/
def after (w : ω) : List Call → ω
  | [] => w
  | c :: rest => after (answer c w).2 rest

/-- The calls are about nobody but `who`, and each is made while it is alive. -/
def Careful (who : Option Actor) (w : ω) : List Call → Prop
  | [] => True
  | c :: rest =>
    (∀ a ∈ c.actors, who = some a ∧ alive w a = true) ∧ Careful who (answer c w).2 rest

theorem after_append (w : ω) (xs ys : List Call) : after w (xs ++ ys) = after (after w xs) ys := by
  induction xs generalizing w with
  | nil => rfl
  | cons c rest ih => exact ih _

theorem careful_append {who : Option Actor} {w : ω} {xs ys : List Call} :
    Careful who w (xs ++ ys) ↔ Careful who w xs ∧ Careful who (after w xs) ys := by
  induction xs generalizing w with
  | nil => simp [Careful, after]
  | cons c rest ih => simp only [List.cons_append, Careful, after, ih, and_assoc]

end Host

namespace Recorded

variable {ω : Type} [Host ω] {who : Option Actor} {r r₁ r₂ r₃ : Recorded ω}

/-- The record after further calls. -/
def extend (r : Recorded ω) (calls : List Call) : Recorded ω :=
  ⟨Host.after r.world calls, r.calls ++ calls⟩

/-- What was asked in between is careful. -/
def Minds (who : Option Actor) (r₁ r₂ : Recorded ω) : Prop :=
  ∃ calls, r₂ = r₁.extend calls ∧ Host.Careful who r₁.world calls

theorem extend_nil (r : Recorded ω) : r.extend [] = r := by
  simp [extend, Host.after]

theorem extend_extend (r : Recorded ω) (xs ys : List Call) :
    (r.extend xs).extend ys = r.extend (xs ++ ys) := by
  simp [extend, Host.after_append]

theorem Minds.refl (r : Recorded ω) : r.Minds who r := ⟨[], r.extend_nil.symm, trivial⟩

theorem Minds.trans (h : r₁.Minds who r₂) (h' : r₂.Minds who r₃) : r₁.Minds who r₃ := by
  obtain ⟨xs, rfl, hxs⟩ := h
  obtain ⟨ys, rfl, hys⟩ := h'
  exact ⟨xs ++ ys, r₁.extend_extend xs ys, Host.careful_append.mpr ⟨hxs, hys⟩⟩

theorem minds_answer {c : Call} (hc : ∀ a ∈ c.actors, who = some a ∧ Host.alive r.world a = true) :
    r.Minds who (Host.answer c r).2 := ⟨[c], rfl, hc, trivial⟩

end Recorded

/-! ## Computations that ask nothing -/

/-- A host that takes no notice of anything. -/
@[reducible] def Host.deaf (ω : Type) : Host ω := ⟨fun c w => (c.usual, w), fun _ => []⟩

namespace Exec

variable {ω α β : Type}

/-- The computation asks nothing of the host, and leaves the activator. -/
def Silent (x : Exec ω α) : Prop :=
  ∀ ctx m, (left (x ctx m)).world = m.world ∧ (left (x ctx m)).inst.activator = m.inst.activator

/-- A computation without a host makes the same changes whatever the host, and to a deaf one it
does not matter what it is asked. -/
theorem silent_of_makes {x : Exec ω α} (h : @Makes ω α (.deaf ω) true true x) : Silent x := by
  intro ctx m
  let := Host.deaf ω
  refine (h ctx m).keep (P := fun m' => m'.world = m.world ∧
    m'.inst.activator = m.inst.activator) (fun m₁ m₂ hc hm => ?_) ⟨rfl, rfl⟩
  cases hc <;> exact hm

/-! ## Computations that ask -/

variable [Host ω] {who : Option Actor} {P : (Actor → Bool) → Prop}
  {Q : β → (Actor → Bool) → Prop}

/-- Where `P` holds of who is alive, the computation asks carefully, and `Q` holds of its value and
of who is alive then. -/
def Heeds (who : Option Actor) (P : (Actor → Bool) → Prop) (x : Exec (Recorded ω) α)
    (Q : α → (Actor → Bool) → Prop) : Prop :=
  ∀ ctx m, m.inst.activator = who → P (Host.alive m.world.world) →
    m.world.Minds who (left (x ctx m)).world ∧ (left (x ctx m)).inst.activator = who ∧
      ∀ a m', x ctx m = .ok a m' → Q a (Host.alive m'.world.world)

/-- The target is nobody, or the activator while it is alive. -/
def Trusted (who target : Option Actor) (alive : Actor → Bool) : Prop :=
  ∀ a ∈ target.toList, who = some a ∧ alive a = true

theorem trusted_none {alive : Actor → Bool} : Trusted who none alive := nofun

theorem heeds_bind {x : Exec (Recorded ω) α} {k : α → Exec (Recorded ω) β}
    {R : α → (Actor → Bool) → Prop} (hx : Heeds who P x R) (hk : ∀ a, Heeds who (R a) (k a) Q) :
    Heeds who P (x >>= k) Q := by
  intro ctx m hwho hp
  obtain ⟨hminds, hkept, hr⟩ := hx ctx m hwho hp
  cases hrun : x ctx m with
  | ok a m' =>
    rw [hrun] at hminds hkept
    rw [bind_ok hrun]
    obtain ⟨hminds', hkept', hq⟩ := hk a ctx m' hkept (hr a m' hrun)
    exact ⟨hminds.trans hminds', hkept', hq⟩
  | error f m' =>
    rw [hrun] at hminds hkept
    rw [bind_error hrun]
    exact ⟨hminds, hkept, fun b m₂ h => by cases h⟩

theorem Silent.heeds {x : Exec (Recorded ω) α} (hx : Silent x) : Heeds who P x fun _ => P := by
  intro ctx m hwho hp
  obtain ⟨hworld, hkept⟩ := hx ctx m
  refine ⟨hworld ▸ .refl _, hkept.trans hwho, fun a m' hrun => ?_⟩
  rw [hrun] at hworld
  rwa [show m'.world = m.world from hworld]

/-- First something that asks nothing. -/
theorem heeds_after {x : Exec (Recorded ω) α} {k : α → Exec (Recorded ω) β}
    (hx : @Makes (Recorded ω) α (.deaf _) true true x) (hk : ∀ a, Heeds who P (k a) Q) :
    Heeds who P (x >>= k) Q :=
  heeds_bind (silent_of_makes hx).heeds hk

/-- Last something that asks nothing. -/
theorem heeds_last {x : Exec (Recorded ω) α}
    (hx : @Makes (Recorded ω) α (.deaf _) true true x) : Heeds who P x fun _ _ => True := by
  intro ctx m hwho hp
  obtain ⟨hminds, hkept, -⟩ := (silent_of_makes hx).heeds ctx m hwho hp
  exact ⟨hminds, hkept, fun _ _ _ => trivial⟩

theorem heeds_ite {p : Prop} [Decidable p] {x y : Exec (Recorded ω) β} (hx : Heeds who P x Q)
    (hy : Heeds who P y Q) : Heeds who P (if p then x else y) Q := by
  split <;> assumption

theorem heeds_pure {b : β} (h : ∀ l, P l → Q b l) : Heeds (ω := ω) who P (pure b) Q := by
  intro ctx m hwho hp
  refine ⟨.refl _, hwho, fun a m' hrun => ?_⟩
  cases hrun
  exact h _ hp

/-- A call that is about nobody. -/
theorem heeds_askOther {c : Call} (hc : c.actors = []) :
    Heeds (ω := ω) who P (ask c) fun _ _ => True :=
  fun _ _ hwho _ => ⟨Recorded.minds_answer (by simp [hc]), hwho, fun _ _ _ => trivial⟩

theorem heeds_perform {e : Effect} (h : ∀ l, P l → ∀ a ∈ e.actors, who = some a ∧ l a = true) :
    Heeds (ω := ω) who P (perform e) fun _ _ => True := by
  intro ctx m hwho hp
  refine ⟨?_, hwho, fun _ _ _ => trivial⟩
  have hperform : m.world.Minds who (Host.answer (.perform e) m.world).2 :=
    Recorded.minds_answer (h _ hp)
  exact hperform.trans (Recorded.minds_answer (c := .broadcast e) nofun)

theorem heeds_act {e : Effect} (h : ∀ l, P l → ∀ a ∈ e.actors, who = some a ∧ l a = true) :
    Heeds (ω := ω) who P (act e) fun _ _ => True :=
  heeds_bind (heeds_perform h) fun _ => heeds_pure fun _ _ => trivial

theorem heeds_of {x : Exec (Recorded ω) β} {p : Prop} (h : p → Heeds who (fun _ => True) x Q) :
    Heeds who (fun _ => p) x Q :=
  fun ctx m hwho hp => h hp ctx m hwho trivial

theorem heeds_getInst : Heeds (ω := ω) who P getInst fun inst _ => inst.activator = who := by
  intro ctx m hwho _
  refine ⟨.refl _, hwho, fun inst m' hrun => ?_⟩
  cases hrun
  exact hwho

theorem heeds_pushPlayerInGame : Heeds (ω := ω) who P pushPlayerInGame fun _ _ => True := by
  refine heeds_after (by simp) fun v => ?_
  cases player? v with
  | none => exact heeds_last (by simp)
  | some p => exact heeds_bind (heeds_askOther rfl) fun _ => heeds_last (by simp)

/-- A sound of the instance itself, or one from a source that names nobody. -/
theorem heeds_sound {source : Exec (Recorded ω) SoundSource}
    (h : Heeds who P source fun s l => ∀ a ∈ s.actors, who = some a ∧ l a = true) :
    Heeds who P (sound source) fun _ _ => True :=
  heeds_after (by simp) fun _ => heeds_bind h fun _ => heeds_after (by simp) fun _ =>
    heeds_act fun _ ht => ht

theorem heeds_setMusic {target : Exec (Recorded ω) (Option Actor)}
    (h : Heeds who P target (Trusted who)) (v : Values 3) :
    Heeds who P (setMusic target v) fun _ _ => True :=
  heeds_bind h fun _ => heeds_after (by simp) fun _ => heeds_act fun _ ht => ht

theorem heeds_clearLineSpecial : Heeds (ω := ω) who P clearLineSpecial fun _ _ => True := by
  refine heeds_after (by simp) fun inst => ?_
  cases inst.line with
  | none => exact heeds_last (by simp)
  | some l => exact heeds_act fun _ _ => nofun

/-- An opcode that does the same with a deaf host. -/
theorem heeds_unheard {op : Opcode} {operands : Array Int32}
    (h : executeWith op operands = @executeWith (Recorded ω) (.deaf _) op operands) :
    Heeds (ω := ω) who P (executeWith op operands) fun _ _ => True := by
  rw [h]
  exact heeds_last (@Makes.any _ _ (.deaf _) _ _ _ (@makes_executeWith _ (.deaf _) op operands))

/-! ## Questions that leave everybody alive -/

section Harmless

variable (hharm : Host.Harmless ω)

include hharm

/-- A question about nobody but the activator, while it is alive. -/
theorem heeds_ask {c : Call} (hc : c.isQuery = true)
    (h : ∀ l, P l → ∀ a ∈ c.actors, who = some a ∧ l a = true) :
    Heeds (ω := ω) who P (ask c) fun _ => P := by
  intro ctx m hwho hp
  refine ⟨Recorded.minds_answer (h _ hp), hwho, fun a m' hrun => ?_⟩
  cases hrun
  show P (Host.alive (Host.answer c m.world.world).2)
  rwa [hharm c m.world.world hc]

theorem heeds_askAlive (a : Actor) :
    Heeds (ω := ω) who P (ask (.actorAlive a)) fun alive l => alive = l a := by
  intro ctx m hwho _
  refine ⟨Recorded.minds_answer nofun, hwho, fun alive m' hrun => ?_⟩
  cases hrun
  show _ = Host.alive (Host.answer (.actorAlive a) m.world.world).2 a
  rw [hharm _ m.world.world rfl]
  rfl

/-- Whoever is gone is not given out. -/
theorem heeds_activator :
    Heeds (ω := ω) who P activator (Trusted who) := by
  refine heeds_bind heeds_getInst fun inst => heeds_of fun hinst => ?_
  cases hactivator : inst.activator with
  | none => exact heeds_pure fun _ _ => trusted_none
  | some a =>
    refine heeds_bind (heeds_askAlive hharm a) fun alive => ?_
    split
    next halive =>
      refine heeds_pure fun l hl b hb => ?_
      obtain rfl : b = a := by simpa using hb
      exact ⟨by rw [← hinst, hactivator], hl ▸ halive⟩
    next => exact heeds_pure fun _ _ => trusted_none

theorem heeds_playerTarget :
    Heeds (ω := ω) who P playerTarget (Trusted who) := by
  refine heeds_bind (heeds_activator hharm) fun target => ?_
  cases target with
  | none => exact heeds_pure fun _ _ => trusted_none
  | some a =>
    refine heeds_bind (heeds_ask hharm rfl fun _ h => h) fun player => ?_
    split
    · exact heeds_pure fun _ h => h
    · exact heeds_pure fun _ _ => trusted_none

theorem heeds_printTarget (bold : Bool) :
    Heeds (ω := ω) who P (printTarget bold) (Trusted who) := by
  unfold printTarget
  split
  · exact heeds_pure fun _ _ => trusted_none
  · exact heeds_playerTarget hharm

/-! ## Instructions -/

theorem heeds_special (number : Int32) (args : SpecialArgs) :
    Heeds (ω := ω) who P (special number args) fun _ _ => True := by
  refine heeds_after (by simp) fun inst => ?_
  cases SpecialKind.ofNumber number with
  | lockedExecute =>
    refine heeds_bind (heeds_activator hharm) fun actor => ?_
    refine heeds_bind (heeds_ask hharm rfl fun _ h => h) fun isOpen => ?_
    split
    · exact heeds_last (by simp)
    · exact heeds_last (by simp)
  | world => exact heeds_bind (heeds_activator hharm) fun actor => heeds_perform fun _ h => h
  | execute always => exact heeds_last (by simp)
  | suspend => exact heeds_last (by simp)
  | terminate => exact heeds_last (by simp)

theorem heeds_specialFromOperands (operands : Array Int32) (source : Source) (argc : Nat) :
    Heeds (ω := ω) who P (specialFromOperands operands source argc) fun _ _ => True :=
  heeds_after (by simp) fun _ => heeds_special hharm _ _

theorem heeds_pushOfActivator {question : Actor → Exec (Recorded ω) Int32}
    (h : ∀ a, Heeds who (Trusted who (some a)) (question a) fun _ => Trusted who (some a)) :
    Heeds who P (pushOfActivator question) fun _ _ => True := by
  refine heeds_bind (heeds_activator hharm) fun target => ?_
  cases target with
  | none => exact heeds_last (by simp)
  | some a => exact heeds_bind (h a) fun _ => heeds_last (by simp)

theorem heeds_pushPlayerNumber :
    Heeds (ω := ω) who P pushPlayerNumber fun _ _ => True := by
  refine heeds_bind (heeds_activator hharm) fun target => ?_
  cases target with
  | none => exact heeds_last (by simp)
  | some a =>
    refine heeds_bind (heeds_ask hharm rfl fun _ h => h) fun player => ?_
    split
    · exact heeds_last (by simp)
    · exact heeds_last (by simp)

theorem heeds_inventory {effect : Option Actor → String → Int32 → Effect}
    (h : ∀ target item n, (effect target item n).actors = target.toList) (v : Values 2) :
    Heeds (ω := ω) who P (inventory effect v) fun _ _ => True :=
  heeds_bind (heeds_activator hharm) fun target => heeds_after (by simp) fun item =>
    heeds_act fun _ ht => (h target item _).symm ▸ ht

theorem heeds_nameText (n : Int32) :
    Heeds (ω := ω) who P (nameText n) fun _ _ => True := by
  unfold nameText
  split
  · refine heeds_bind (heeds_activator hharm) fun target => ?_
    cases target with
    | none => exact heeds_last (by simp)
    | some a =>
      exact heeds_bind (heeds_ask hharm rfl fun _ h => h) fun _ => heeds_last (by simp)
  · dsimp only
    split
    · exact heeds_last (by simp)
    · refine heeds_bind (heeds_askOther rfl) fun inGame => ?_
      split
      · exact heeds_bind (heeds_askOther rfl) fun _ => heeds_last (by simp)
      · exact heeds_last (by simp)

theorem heeds_endHudMessage (bold : Bool) :
    Heeds (ω := ω) who P (endHudMessage bold) fun _ _ => True := by
  refine heeds_after (by simp) fun ctx => heeds_after (by simp) fun depth => ?_
  refine heeds_after (by simp) fun _ => heeds_after (by simp) fun _ => ?_
  refine heeds_ite (heeds_last (by simp [makes_throw_bind])) ?_
  refine heeds_after (by simp) fun _ => heeds_after (by simp) fun _ => ?_
  refine heeds_after (by simp) fun _ => heeds_bind (heeds_printTarget hharm bold) fun _ => ?_
  exact heeds_after (by simp) fun _ => heeds_act fun _ ht => ht

theorem heeds_executeWith (op : Opcode) (operands : Array Int32) :
    Heeds (ω := ω) who P (executeWith op operands) fun _ _ => True := by
  cases op with
  | special argc source =>
    exact heeds_bind (heeds_specialFromOperands hharm operands source _) fun _ =>
      heeds_last (by simp)
  | specialResult =>
    exact heeds_bind (heeds_specialFromOperands hharm operands .stack 5) fun v =>
      heeds_last (by simp)
  | random _ | thingCount _ | actorPosition _ =>
    exact heeds_after (by simp) fun _ => heeds_bind (heeds_askOther rfl) fun _ =>
      heeds_last (by simp)
  | playerCount | gameType | gameSkill | timer | isNetworkGame | singlePlayer =>
    exact heeds_bind (heeds_askOther rfl) fun _ => heeds_last (by simp)
  | playerHealth | playerArmorPoints | playerFrags | activatorTid =>
    exact heeds_pushOfActivator hharm fun _ => heeds_ask hharm rfl fun _ h => h
  | playerNumber => exact heeds_pushPlayerNumber hharm
  | playerInGame => exact heeds_pushPlayerInGame
  | checkInventory direct =>
    exact heeds_after (by simp) fun _ => heeds_after (by simp) fun _ =>
      heeds_pushOfActivator hharm fun _ => heeds_ask hharm rfl fun _ h => h
  | changeFlat _ _ | setLineTexture | setFont _ | thingSound =>
    exact heeds_after (by simp) fun _ => heeds_after (by simp) fun _ => heeds_act fun _ _ => nofun
  | clearLineSpecial => exact heeds_clearLineSpecial
  | setLineBlocking _ | setLineSpecial | setGravity _ | setAirControl _ =>
    exact heeds_after (by simp) fun _ => heeds_act fun _ _ => nofun
  | clearInventory =>
    exact heeds_bind (heeds_activator hharm) fun _ => heeds_act fun _ h => h
  | giveInventory _ | takeInventory _ =>
    exact heeds_after (by simp) fun v => heeds_inventory hharm (fun _ _ _ => rfl) v
  | spawn _ | spawnSpot _ =>
    exact heeds_after (by simp) fun _ => heeds_after (by simp) fun _ =>
      heeds_bind (heeds_perform fun _ _ => nofun) fun _ => heeds_last (by simp)
  | printLocalized =>
    exact heeds_after (by simp) fun _ => heeds_after (by simp) fun _ =>
      heeds_bind (heeds_askOther rfl) fun _ => heeds_last (by simp)
  | printName =>
    exact heeds_after (by simp) fun n => heeds_bind (heeds_nameText hharm n) fun _ =>
      heeds_last (by simp)
  | endPrint bold =>
    exact heeds_bind (heeds_printTarget hharm bold) fun _ => heeds_after (by simp) fun _ =>
      heeds_act fun _ h => h
  | endHudMessage bold => exact heeds_endHudMessage hharm bold
  | sectorSound =>
    exact heeds_sound (heeds_after (by simp) fun _ => heeds_pure fun _ _ => nofun)
  | ambientSound => exact heeds_sound (heeds_pure fun _ _ => nofun)
  | localAmbientSound | activatorSound =>
    exact heeds_sound (heeds_bind (heeds_activator hharm) fun _ => heeds_pure fun _ h => h)
  | soundSequence =>
    exact heeds_after (by simp) fun _ => heeds_after (by simp) fun _ =>
      heeds_after (by simp) fun _ => heeds_act fun _ _ => nofun
  | musicChange =>
    exact heeds_after (by simp) fun _ => heeds_after (by simp) fun _ =>
      heeds_act fun _ _ _ h => absurd h List.not_mem_nil
  | setMusic direct =>
    exact heeds_after (by simp) fun v => heeds_setMusic (heeds_pure fun _ _ => trusted_none) v
  | localSetMusic direct =>
    exact heeds_after (by simp) fun v => heeds_setMusic (heeds_playerTarget hharm) v
  | fadeTo | fadeRange =>
    exact heeds_after (by simp) fun _ => heeds_bind (heeds_playerTarget hharm) fun _ =>
      heeds_act fun _ h => h
  | cancelFade => exact heeds_bind (heeds_playerTarget hharm) fun _ => heeds_act fun _ h => h
  | _ => exact heeds_unheard rfl

/-! ## Steps and turns -/

theorem heeds_executeAfter (op : Opcode) (next : UInt32) :
    Heeds (ω := ω) who P (executeAfter op next) fun _ _ => True := by
  refine heeds_after (by simp) fun ctx => ?_
  dsimp only
  split
  · exact heeds_last (@makes_stopAtOperands _ (.deaf _) true op _ _)
  · exact heeds_after (by simp) fun _ => heeds_executeWith hharm op _

theorem heeds_obey (script : Int32) (pc raw next : UInt32) :
    Heeds (ω := ω) who P (obey script pc raw next) fun _ _ => True := by
  unfold obey
  cases Opcode.ofNumber? raw with
  | none => exact heeds_last (by simp)
  | some op => exact heeds_after (by simp) fun _ => heeds_executeAfter hharm op next

theorem heeds_stepWhole :
    Heeds (ω := ω) who P stepWhole fun _ _ => True := by
  intro ctx m hwho hp
  cases h : Code.readNumber ctx.program.codeWidth ctx.program.image m.inst.pc with
  | error f =>
    rw [stepWhole_of_error h]
    exact ⟨.refl _, hwho, fun b m₂ h => by cases h⟩
  | ok r =>
    rw [stepWhole_of_ok h]
    exact heeds_obey hharm _ _ _ _ ctx m hwho hp

end Harmless

end Exec

namespace Machine

variable {ω : Type} [Host ω] (hharm : Host.Harmless ω)

include hharm

/-- What a step asks is careful, and the activator stays. -/
theorem minds_step (ctx : Context) (m : Machine (Recorded ω)) :
    m.world.Minds m.inst.activator (m.step ctx).world ∧
      (m.step ctx).inst.activator = m.inst.activator := by
  obtain ⟨hminds, hkept, -⟩ :=
    Exec.heeds_stepWhole (P := fun _ => True) hharm ctx m rfl trivial
  rw [step_eq]
  cases hrun : Exec.stepWhole ctx m with
  | ok a m' =>
    rw [hrun] at hminds hkept
    exact ⟨hminds, hkept⟩
  | error f m' =>
    rw [hrun] at hminds hkept
    exact ⟨hminds, hkept⟩

theorem minds_loop (ctx : Context) (fuel : Nat)
    (m : Machine (Recorded ω)) : m.world.Minds m.inst.activator (m.loop ctx fuel).2.world := by
  induction fuel generalizing m with
  | zero =>
    unfold loop
    split
    · exact .refl _
    · exact .refl _
  | succ fuel ih =>
    unfold loop
    split
    · obtain ⟨hminds, hkept⟩ := minds_step hharm ctx m
      exact hminds.trans (hkept ▸ ih (m.step ctx))
    · exact .refl _

theorem minds_run (program : Program) (config : Config) (m : Machine (Recorded ω)) :
    m.world.Minds m.inst.activator (m.run program config).2.world := by
  have hend (m' : Machine (Recorded ω)) : m'.endDivision.world = m'.world := by
    unfold endDivision
    split <;> rfl
  unfold run
  dsimp only
  split
  · exact .refl _
  · show m.world.Minds m.inst.activator (endDivision _).world
    rw [hend]
    exact minds_loop hharm _ _ m.resume

end Machine

/-! ## Acts -/

namespace Simulation

variable {ω : Type} [Host ω]

/-- What an act asks of the host: in a turn nothing about anybody but the activator of the
instance, and only while it is alive; when a request is filed for another map, who its activator
is; and else nothing about anybody. -/
inductive Asks (t : Simulation (Recorded ω)) : Act → List Call → Prop
  | turn {h : Handle} {i : Instance} {calls : List Call} (hi : t.level.instance? h = some i)
      (hcalls : Host.Careful i.activator t.world.world calls) : Asks t (.turn h) calls
  | file {map script : Int32} {args : ScriptArgs} {always : Bool} {actor : Actor}
      {line : Option Line} {side : Side} (hmap : map ≠ 0 ∧ map ≠ t.level.map) :
      Asks t (.route (.execute map script args always (some actor) line side))
        [.playerNumber actor]
  | other {a : Act} {calls : List Call} (h : ∀ c ∈ calls, c.actors = []) : Asks t a calls

/-- The acts of operations, one after the other. -/
def playActs (s : Simulation ω) : List Operation → List Act
  | [] => []
  | op :: ops => op.acts s ++ (op.run s).2.playActs ops

theorem actAll_playActs (s : Simulation ω) (ops : List Operation) :
    s.actAll (s.playActs ops) = (s.play ops).2 := by
  induction ops generalizing s with
  | nil => rfl
  | cons op ops ih => rw [playActs, actAll_append, ← Operation.run_eq_acts, ih, play]

theorem minds_nextStatus (who : Option Actor) (t : Simulation (Recorded ω)) (st : Status) :
    t.world.Minds who (t.nextStatus st).2.world := by
  cases st with
  | tagWait tag => exact Recorded.minds_answer nofun
  | polyWait id => exact Recorded.minds_answer nofun
  | _ => exact .refl _

theorem minds_advance (hharm : Host.Harmless ω) (t : Simulation (Recorded ω)) (i : Instance) :
    t.world.Minds i.activator (t.advance i).2.world := by
  have hnext := minds_nextStatus i.activator t i.status
  unfold advance
  dsimp only
  split
  · rw [dispatch_eq]
    exact hnext.trans (Machine.minds_run hharm _ _ (machine _ _))
  · exact hnext

theorem asks_nothing {t t' : Simulation (Recorded ω)} {a : Act} (h : t'.world = t.world) :
    ∃ calls, t'.world = t.world.extend calls ∧ t.Asks a calls :=
  ⟨[], by rw [h, Recorded.extend_nil], .other nofun⟩

theorem asks_turn (hharm : Host.Harmless ω) (t : Simulation (Recorded ω)) (h : Handle) :
    ∃ calls, (t.turn h).world = t.world.extend calls ∧ t.Asks (.turn h) calls := by
  unfold turn
  cases hi : t.level.instance? h with
  | none => exact asks_nothing rfl
  | some i =>
    obtain ⟨calls, hworld, hcareful⟩ := minds_advance hharm t i
    exact ⟨calls, hworld, .turn hi hcareful⟩

theorem asks_route (t : Simulation (Recorded ω)) (r : Request) :
    ∃ calls, (t.route r).2.world = t.world.extend calls ∧ t.Asks (.route r) calls := by
  unfold route
  split
  next hmap =>
    cases r with
    | execute map script args always activator line side =>
      cases activator with
      | none => exact asks_nothing rfl
      | some actor => exact ⟨[.playerNumber actor], rfl, .file hmap⟩
    | suspend => exact asks_nothing rfl
    | terminate => exact asks_nothing rfl
  next =>
    cases r with
    | execute => exact asks_nothing (start_frame t _).2
    | suspend => exact asks_nothing rfl
    | terminate => exact asks_nothing rfl

theorem asks_deliver (t : Simulation (Recorded ω)) (e : DeferredEntry) :
    ∃ calls, (t.deliver e).world = t.world.extend calls ∧ t.Asks (.deliver e) calls := by
  have hactor : ∃ calls, (t.actorOf e.player).2.world = t.world.extend calls ∧
      t.Asks (.deliver e) calls := by
    cases e.player with
    | none => exact asks_nothing rfl
    | some p => exact ⟨[.playerActor p], rfl, .other (by simp [Call.actors])⟩
  unfold deliver
  split
  · exact asks_nothing rfl
  · split
    · exact asks_nothing rfl
    · exact asks_nothing rfl
    all_goals
      dsimp only
      rw [(start_frame _ _).2]
      exact hactor

theorem asks_act (hharm : Host.Harmless ω) (t : Simulation (Recorded ω)) (a : Act) :
    ∃ calls, (t.act a).world = t.world.extend calls ∧ t.Asks a calls := by
  cases a with
  | route r => exact asks_route t r
  | start p => exact asks_nothing (start_frame t p).2
  | deliver e => exact asks_deliver t e
  | turn h => exact asks_turn hharm t h
  | remove h => exact asks_nothing (remove_frame t h).2
  | _ => exact asks_nothing rfl

/-! ## Plays -/

/-- Acts only add to the record. -/
theorem world_actAll (hharm : Host.Harmless ω) (t : Simulation (Recorded ω)) (acts : List Act) :
    ∃ calls, (t.actAll acts).world = t.world.extend calls := by
  induction acts generalizing t with
  | nil => exact ⟨[], t.world.extend_nil.symm⟩
  | cons a rest ih =>
    obtain ⟨xs, hxs, -⟩ := asks_act hharm t a
    obtain ⟨ys, hys⟩ := ih (t.act a)
    exact ⟨xs ++ ys, by rw [actAll_cons, hys, hxs, Recorded.extend_extend]⟩

/-- Every call that acts add to the record is asked in one of them. -/
theorem exists_asks (hharm : Host.Harmless ω) {t : Simulation (Recorded ω)} {acts : List Act}
    {before after : List Call} {c : Call} (hthere : t.world.calls <+: before)
    (hcalls : (t.actAll acts).world.calls = before ++ c :: after) :
    ∃ earlier a later xs ys, acts = earlier ++ a :: later ∧
      before = (t.actAll earlier).world.calls ++ xs ∧
      ((t.actAll earlier).act a).world = (t.actAll earlier).world.extend (xs ++ c :: ys) ∧
      (t.actAll earlier).Asks a (xs ++ c :: ys) := by
  induction acts generalizing t with
  | nil =>
    have hle := hthere.length_le
    rw [actAll_nil] at hcalls
    rw [hcalls, List.length_append, List.length_cons] at hle
    omega
  | cons a rest ih =>
    obtain ⟨calls, hworld, hasks⟩ := asks_act hharm t a
    obtain ⟨more, hmore⟩ := world_actAll hharm (t.act a) rest
    obtain ⟨xs, rfl⟩ := hthere
    rw [actAll_cons] at hcalls
    have hall : calls ++ more = xs ++ c :: after := by
      rw [hmore, hworld, Recorded.extend_extend] at hcalls
      simpa [Recorded.extend] using hcalls
    have hsplit : (∃ zs, xs = calls ++ zs) ∨ ∃ ys, calls = xs ++ c :: ys := by
      rcases List.append_eq_append_iff.mp hall with ⟨zs, hxs, -⟩ | ⟨_ | ⟨z, zs⟩, hzs, hrest⟩
      · exact .inl ⟨zs, hxs⟩
      · exact .inl ⟨[], by simpa using hzs.symm⟩
      · obtain ⟨rfl, -⟩ := List.cons.inj hrest
        exact .inr ⟨zs, hzs⟩
    rcases hsplit with ⟨zs, rfl⟩ | ⟨ys, rfl⟩
    · have hlater : (t.act a).world.calls <+: t.world.calls ++ (calls ++ zs) := by
        rw [hworld, ← List.append_assoc]
        exact List.prefix_append _ _
      obtain ⟨earlier, b, later, us, vs, rfl, hbefore, hact, hb⟩ := ih hlater hcalls
      exact ⟨a :: earlier, b, later, us, vs, rfl, hbefore, hact, hb⟩
    · exact ⟨[], a, rest, xs, ys, rfl, rfl, hworld, hasks⟩

theorem Asks.of_actor {t : Simulation (Recorded ω)} {a : Act} {xs ys : List Call} {c : Call}
    (h : t.Asks a (xs ++ c :: ys)) {actor : Actor} (hactor : actor ∈ c.actors) :
    (∃ handle i, a = .turn handle ∧ t.level.instance? handle = some i ∧
      i.activator = some actor ∧ Host.alive (Host.after t.world.world xs) actor = true) ∨
    ∃ map script args always line side, a = .route (.execute map script args always (some actor)
      line side) ∧ map ≠ 0 ∧ map ≠ t.level.map ∧ xs = [] ∧ c = .playerNumber actor := by
  generalize hcalls : xs ++ c :: ys = calls at h
  cases h with
  | turn hi hcareful =>
    subst hcalls
    obtain ⟨-, hc, -⟩ := Host.careful_append.mp hcareful
    obtain ⟨hwho, halive⟩ := hc actor hactor
    exact .inl ⟨_, _, rfl, hi, hwho, halive⟩
  | file hmap =>
    cases xs with
    | nil =>
      obtain ⟨rfl, -⟩ := List.cons.inj hcalls
      obtain rfl := List.mem_singleton.mp hactor
      exact .inr ⟨_, _, _, _, _, _, rfl, hmap.1, hmap.2, rfl, rfl⟩
    | cons x xs => simp at hcalls
  | other hnobody =>
    have hnone := hnobody c (by simp [← hcalls])
    simp [hnone] at hactor

end Simulation

/-- **A dead activator is left alone, unless a request is filed.** Whatever is asked of a level:
every call about an actor, with the calls `before` it, is made in a turn of an instance that the
actor started, and while it is alive; or it asks which player the actor is, to file a request for
another map with the actor as the activator, which may be gone by then. -/
theorem activator_alive_unless_filed {ω : Type} [Host ω] (hharm : Host.Harmless ω)
    (s : Simulation ω) (ops : List Operation) {before after : List Call} {c : Call}
    (hcalls : (s.recording.play ops).2.world.calls = before ++ c :: after) {actor : Actor}
    (hactor : actor ∈ c.actors) :
    ∃ earlier a later, s.recording.playActs ops = earlier ++ a :: later ∧
      let t := s.recording.actAll earlier
      t.world.calls <+: before ∧ before ++ [c] <+: (t.act a).world.calls ∧
      ((∃ h i, a = .turn h ∧ t.level.instance? h = some i ∧ i.activator = some actor ∧
        Host.alive (Host.after s.world before) actor = true) ∨
      ∃ map script args always line side,
        a = .route (.execute map script args always (some actor) line side) ∧
        map ≠ 0 ∧ map ≠ t.level.map ∧ before = t.world.calls ∧ c = .playerNumber actor) := by
  rw [← Simulation.actAll_playActs] at hcalls
  obtain ⟨earlier, a, later, xs, ys, hacts, rfl, hact, hasks⟩ :=
    Simulation.exists_asks hharm (List.nil_prefix) hcalls
  obtain ⟨calls, hworld⟩ := Simulation.world_actAll hharm s.recording earlier
  refine ⟨earlier, a, later, hacts, List.prefix_append _ _, ?_, ?_⟩
  · rw [hact]
    exact ⟨ys, by simp [Recorded.extend]⟩
  · rcases hasks.of_actor hactor with ⟨h, i, ha, hi, hactivator, halive⟩ | ⟨map, script, args,
      always, line, side, ha, hzero, hmap, rfl, hc⟩
    · refine .inl ⟨h, i, ha, hi, hactivator, ?_⟩
      rw [Host.after_append]
      rw [hworld] at halive ⊢
      exact halive
    · exact .inr ⟨map, script, args, always, line, side, ha, hzero, hmap, by simp, hc⟩

/-! ## A player that is gone -/

namespace Departed

open Simulation

def player : Actor := ⟨1, 0⟩

/-- Script 1 asks for the health of its activator, executes script 5 of map 2, and ends. -/
def program : Program :=
  { (default : Program) with
    image := #[120, 0, 0, 0, 10, 0, 0, 0, 80, 0, 0, 0, 5, 0, 0, 0, 2, 0, 0, 0, 1, 0, 0, 0]
    layout := .enhanced .wide
    scripts := [{ (default : Script) with number := 1 }] }

def idle (dead : List Actor) : Simulation PreparedWorld :=
  ⟨.start program 1 .standard, .empty, { dead := dead, players := [some player] }, default⟩

def launch : Operation := .launch { script := 1, activator := some player }

/-- Script 1 is about to run. -/
def started (dead : List Actor) : Simulation (Recorded PreparedWorld) :=
  ((idle dead).recording.start { script := 1, activator := some player }).2

/-- It ran, and its request is to be filed. -/
def ran (dead : List Actor) : Simulation (Recorded PreparedWorld) :=
  (started dead).dropReady.visit ⟨0, 0⟩

def request : Request := .execute 2 5 ⟨0, 0, 0⟩ false (some player) none .front

def filed (dead : List Actor) : Simulation (Recorded PreparedWorld) :=
  ((ran dead).dropRequest.route request).2

theorem harmless : Host.Harmless PreparedWorld := fun _ _ _ => rfl

/-- The calls of the play. -/
def asked (dead : List Actor) : List Call :=
  .actorAlive player ::
    if player ∈ dead then [.playerNumber player] else [.playerHealth player, .playerNumber player]

theorem facts {dead : List Actor} (hdead : dead = [] ∨ dead = [player]) :
    (started dead).level.pending = [] ∧ (started dead).level.ready = [⟨0, 0⟩] ∧
    (ran dead).level.pending = [request] ∧
    (filed dead).level.pending = [] ∧ (filed dead).level.ready = [] ∧
    (filed dead).reap.world.calls = asked dead ∧
    (filed dead).reap.session.deferred.entries = [⟨2, .execute, 5, ⟨0, 0, 0⟩, some 0⟩] := by
  rcases hdead with rfl | rfl <;> decide +kernel

theorem play_launch {dead : List Actor} (hdead : dead = [] ∨ dead = [player]) :
    ((idle dead).recording.play [launch]).2 = (filed dead).reap := by
  obtain ⟨hpending, hready, hrequest, hdone, hquiet, -⟩ := facts hdead
  have hlast : (filed dead).settle 1023 = (1023, (filed dead).reap) := settle_done hdone hquiet
  have hroute : (ran dead).settle 1023 = (filed dead).settle 1023 := settle_request hrequest
  have hrun := Operation.run_launch_visit (s := (idle dead).recording) rfl hpending hready
  show (Operation.run (idle dead).recording launch).2 = _
  rw [launch, hrun]
  show ((ran dead).settle 1023).2 = _
  rw [hroute, hlast]

/-- The health of a living player is asked for in the turn of the script that it started. -/
theorem activator_alive_unless_filed_living :
    Host.Harmless PreparedWorld ∧
    ((idle []).recording.play [launch]).2.world.calls =
      [.actorAlive player] ++ .playerHealth player :: [.playerNumber player] ∧
    ∃ earlier a later, (idle []).recording.playActs [launch] = earlier ++ a :: later ∧
      ∃ h i, a = .turn h ∧ ((idle []).recording.actAll earlier).level.instance? h = some i ∧
        i.activator = some player ∧
        Host.alive (Host.after (idle []).world [.actorAlive player]) player = true := by
  obtain ⟨-, -, -, -, -, hasked, -⟩ := facts (.inl rfl)
  have hcalls : ((idle []).recording.play [launch]).2.world.calls =
      [.actorAlive player] ++ .playerHealth player :: [.playerNumber player] := by
    rw [play_launch (.inl rfl), hasked]
    rfl
  obtain ⟨earlier, a, later, hacts, -, -, hwhy⟩ := activator_alive_unless_filed harmless (idle [])
    [launch] hcalls (List.mem_singleton.mpr rfl : player ∈ Call.actors (.playerHealth player))
  refine ⟨harmless, hcalls, earlier, a, later, hacts, ?_⟩
  rcases hwhy with hturn | ⟨_, _, _, _, _, _, -, -, -, -, hc⟩
  · exact hturn
  · cases hc

/-- A request of a player that is gone is filed under its number: the host is asked for it. -/
theorem dead_player_filed :
    ¬ (∀ before c after, ((idle [player]).recording.play [launch]).2.world.calls =
        before ++ c :: after →
      ∀ actor ∈ c.actors, Host.alive (Host.after (idle [player]).world before) actor = true) ∧
    ((idle [player]).recording.play [launch]).2.session.deferred.entries =
      [⟨2, .execute, 5, ⟨0, 0, 0⟩, some 0⟩] := by
  obtain ⟨-, -, -, -, -, hasked, hfiled⟩ := facts (.inr rfl)
  have hdead : Host.alive (Host.after (idle [player]).world [.actorAlive player]) player =
    false := rfl
  rw [play_launch (.inr rfl)]
  refine ⟨fun h => ?_, hfiled⟩
  have halive := h [.actorAlive player] (.playerNumber player) [] hasked player
    (List.mem_singleton.mpr rfl)
  rw [hdead] at halive
  cases halive

end Departed

end LevelScript
