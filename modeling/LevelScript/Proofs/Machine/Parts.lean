import LevelScript.Proofs.Machine.Operands

/-!
# Instructions and their parts

An instruction that does not jump is a sequence of operations on the stack, the variables and the
host. Whatever relates the computations of two machines, or says something of one, holds for all
these instructions once it holds for the operations and for sequences.

* `Exec.Parts`: what is to be shown.
* `Exec.Parts.executeWith`: what follows for an opcode.
-/

namespace LevelScript

/-- Whether a call only wants an answer: it neither makes a change nor sends one. -/
@[simp] def Call.isQuestion : Call → Bool
  | perform _ | broadcast _ => false
  | _ => true

/-- Whether the opcode may set the offset, apart from reading operands. -/
def Opcode.jumps : Opcode → Bool
  | .restart | .goto | .branch _ | .caseGoto | .caseGotoSorted | .call _ | .returnVoid
  | .returnVal => true
  | _ => false

namespace Exec

variable {ω₁ ω₂ : Type} [Host ω₁] [Host ω₂]

/-- A relation between computations that holds for the operations and is kept by sequences. -/
structure Parts (R : (α : Type) → Exec ω₁ α → Exec ω₂ α → Prop) : Prop where
  pure {α : Type} (a : α) : R α (pure a) (pure a)
  bind {α β : Type} {x : Exec ω₁ α} {y : Exec ω₂ α} {f : α → Exec ω₁ β} {g : α → Exec ω₂ β} :
    R α x y → (∀ a, R β (f a) (g a)) → R β (x >>= f) (y >>= g)
  /-- The two instances may differ in where their code and their part of the stack are. -/
  inst {β : Type} {f : Instance → Exec ω₁ β} {g : Instance → Exec ω₂ β} :
    (∀ (i : Instance) pc entry segment,
      R β (f i) (g { i with pc := pc, entry := entry, segment := segment })) →
    R β (getInst >>= f) (getInst >>= g)
  setStatus {s : Status} : (∀ n, s ≠ .scriptWait n) → R Unit (setStatus s) (setStatus s)
  setResult (v : Int32) : R Unit (modifyInst ({ · with result := v }))
    (modifyInst ({ · with result := v }))
  clearPrint : R Unit (modifyInst ({ · with print := "" })) (modifyInst ({ · with print := "" }))
  setHudMark (mark : Option UInt32) : R Unit (modifyInst ({ · with hudMark := mark }))
    (modifyInst ({ · with hudMark := mark }))
  append (s : String) : R Unit (append s) (append s)
  takePrint : R String takePrint takePrint
  raise (r : Request) : R Unit (raise r) (raise r)
  outOfRange (n : Int32) (scope : Scope) (index : UInt32) :
    R Unit (note (.variableOutOfRange n scope index)) (note (.variableOutOfRange n scope index))
  push (v : Int32) : R Unit (push v) (push v)
  pop : R Int32 pop pop
  peek : R Int32 peek peek
  depth : R Nat depth depth
  readVar (scope : Scope) (index : UInt32) :
    R (Option Int32) (readVar scope index) (readVar scope index)
  writeVar (scope : Scope) (index : UInt32) (v : Int32) :
    R Bool (writeVar scope index v) (writeVar scope index v)
  loadElement (scope : ArrayScope) (slot : UInt32) (element : Int32) :
    R Int32 (loadElement scope slot element) (loadElement scope slot element)
  storeElement (scope : ArrayScope) (slot : UInt32) (element v : Int32) :
    R Unit (storeElement scope slot element v) (storeElement scope slot element v)
  text (index : Int32) : R String (text index) (text index)
  pushTextLength : R Unit pushTextLength pushTextLength
  ask {c : Call} : c.isQuestion = true → R c.Reply (ask c) (ask c)
  perform (e : Effect) : R Int32 (perform e) (perform e)

namespace Parts

variable {R : (α : Type) → Exec ω₁ α → Exec ω₂ α → Prop} (h : Parts R)

include h

/-! ## Operands and variables -/

theorem popMany (n : Nat) : R _ (Exec.popMany n) (Exec.popMany n) := by
  induction n with
  | zero => exact h.pure _
  | succ n ih => exact h.bind h.pop fun _ => h.bind ih fun _ => h.pure _

theorem pushAll (vs : List Int32) : R _ (Exec.pushAll vs) (Exec.pushAll vs) := by
  induction vs with
  | nil => exact h.pure ()
  | cons v rest ih => exact h.bind (h.push v) fun _ => ih

theorem argumentFrom (operands : Array Int32) (source : Source) :
    R _ (Exec.argumentFrom operands source) (Exec.argumentFrom operands source) := by
  cases source with
  | stack => exact h.pop
  | words | bytes => exact h.pure _

theorem argumentsFrom (operands : Array Int32) (start n : Nat) (source : Source) :
    R _ (Exec.argumentsFrom operands start n source)
      (Exec.argumentsFrom operands start n source) := by
  cases source with
  | stack => exact h.popMany n
  | words | bytes => exact h.pure _

theorem loadVar (scope : Scope) (index : UInt32) :
    R _ (Exec.loadVar scope index) (Exec.loadVar scope index) := by
  refine h.bind (h.readVar scope index) fun v => ?_
  cases v with
  | some v => exact h.pure v
  | none => exact h.inst fun i _ _ _ => h.bind (h.outOfRange i.number scope index) fun _ => h.pure 0

theorem storeVar (scope : Scope) (index : UInt32) (v : Int32) :
    R _ (Exec.storeVar scope index v) (Exec.storeVar scope index v) := by
  refine h.bind (h.writeVar scope index v) fun stored => ?_
  split
  · exact h.pure ()
  · exact h.inst fun i _ _ _ => h.outOfRange i.number scope index

theorem updateOperand (u : Update) : R _ (Exec.updateOperand u) (Exec.updateOperand u) := by
  unfold Exec.updateOperand
  split
  · exact h.pop
  · exact h.pure 1

theorem zeroStatus (u : Update) : R _ (Exec.setStatus u.zeroStatus)
    (Exec.setStatus u.zeroStatus) :=
  h.setStatus fun n => by cases u <;> simp [Update.zeroStatus]

theorem updateVar (u : Update) (scope : Scope) (index : UInt32) :
    R _ (Exec.updateVar u scope index) (Exec.updateVar u scope index) := by
  refine h.bind (h.updateOperand u) fun operand => ?_
  dsimp only
  split
  on_goal 1 => refine h.bind (h.pure 0) fun current => ?_
  on_goal 2 => refine h.bind (h.loadVar scope index) fun current => ?_
  all_goals
    split
    · exact h.storeVar scope index _
    · exact h.zeroStatus u

theorem updateElement (u : Update) (scope : ArrayScope) (slot : UInt32) :
    R _ (Exec.updateElement u scope slot) (Exec.updateElement u scope slot) := by
  refine h.bind (h.updateOperand u) fun operand => h.bind h.pop fun element => ?_
  refine h.bind (h.loadElement scope slot element) fun current => ?_
  split
  · exact h.storeElement scope slot element _
  · exact h.zeroStatus u

theorem division (op : Division) : R _ (Exec.division op) (Exec.division op) := by
  refine h.bind (h.popMany 2) fun v => ?_
  split
  · exact h.setStatus fun n => by cases op <;> simp [Division.zeroStatus]
  · exact h.push _

theorem delay (ticks : Int32) : R _ (Exec.delay ticks) (Exec.delay ticks) := by
  unfold Exec.delay
  split
  · exact h.setStatus fun n => by simp
  · exact h.pure ()

theorem keepResult (v : Int32) : R _ (Exec.keepResult v) (Exec.keepResult v) :=
  h.bind (h.setResult v) fun _ => h.push v

/-! ## The host -/

theorem act (e : Effect) : R _ (Exec.act e) (Exec.act e) :=
  h.bind (h.perform e) fun _ => h.pure ()

theorem activator : R _ Exec.activator Exec.activator := by
  refine h.inst fun i _ _ _ => ?_
  dsimp only
  cases i.activator with
  | none => exact h.pure none
  | some a =>
    refine h.bind (h.ask rfl) fun alive => ?_
    split <;> exact h.pure _

theorem playerTarget : R _ Exec.playerTarget Exec.playerTarget := by
  refine h.bind h.activator fun target => ?_
  cases target with
  | none => exact h.pure none
  | some a =>
    refine h.bind (h.ask rfl) fun player => ?_
    split <;> exact h.pure _

theorem printTarget (bold : Bool) : R _ (Exec.printTarget bold) (Exec.printTarget bold) := by
  cases bold with
  | true => exact h.pure none
  | false => exact h.playerTarget

theorem special (number : Int32) (args : SpecialArgs) :
    R _ (Exec.special number args) (Exec.special number args) := by
  refine h.inst fun i _ _ _ => ?_
  dsimp only
  have hraise (r : Request) : R Int32 (Exec.raise r >>= fun _ => Pure.pure 1)
      (Exec.raise r >>= fun _ => Pure.pure 1) := h.bind (h.raise r) fun _ => h.pure 1
  cases SpecialKind.ofNumber number with
  | execute always => exact hraise _
  | suspend => exact hraise _
  | terminate => exact hraise _
  | lockedExecute =>
    refine h.bind h.activator fun actor => h.bind (h.ask rfl) fun isOpen => ?_
    split
    · exact hraise _
    · exact h.pure 0
  | world => exact h.bind h.activator fun actor => h.perform _

theorem specialFromOperands (operands : Array Int32) (source : Source) (argc : Nat) :
    R _ (Exec.specialFromOperands operands source argc)
      (Exec.specialFromOperands operands source argc) :=
  h.bind (h.argumentsFrom operands 1 argc source) fun _ => h.special _ _

theorem pushOfActivator {question : Actor → Exec ω₁ Int32} {question' : Actor → Exec ω₂ Int32}
    (hquestion : ∀ a, R _ (question a) (question' a)) :
    R _ (Exec.pushOfActivator question) (Exec.pushOfActivator question') := by
  refine h.bind h.activator fun target => ?_
  cases target with
  | none => exact h.push 0
  | some a => exact h.bind (hquestion a) fun v => h.push v

theorem pushPlayerNumber : R _ Exec.pushPlayerNumber Exec.pushPlayerNumber := by
  refine h.bind h.activator fun target => ?_
  cases target with
  | none => exact h.push _
  | some a =>
    refine h.bind (h.ask rfl) fun player => ?_
    split <;> exact h.push _

theorem pushPlayerInGame : R _ Exec.pushPlayerInGame Exec.pushPlayerInGame := by
  refine h.bind h.pop fun v => ?_
  cases player? v with
  | none => exact h.push 0
  | some p => exact h.bind (h.ask rfl) fun _ => h.push _

theorem nameText (n : Int32) : R _ (Exec.nameText n) (Exec.nameText n) := by
  unfold Exec.nameText
  split
  · refine h.bind h.activator fun target => ?_
    cases target with
    | none => exact h.pure _
    | some a => exact h.bind (h.ask rfl) fun _ => h.pure _
  · dsimp only
    cases player? (n - 1) with
    | none => exact h.pure _
    | some p =>
      refine h.bind (h.ask rfl) fun present => ?_
      split
      · exact h.bind (h.ask rfl) fun _ => h.pure _
      · exact h.pure _

theorem clearLineSpecial : R _ Exec.clearLineSpecial Exec.clearLineSpecial := by
  refine h.inst fun i _ _ _ => ?_
  dsimp only
  cases i.line with
  | some l => exact h.act _
  | none => exact h.pure ()

/-- An effect that is about a text. -/
theorem actText (index : Int32) (effect : String → Effect) :
    R _ (Exec.text index >>= fun s => Exec.act (effect s))
      (Exec.text index >>= fun s => Exec.act (effect s)) :=
  h.bind (h.text index) fun _ => h.act _

theorem sound {source : Exec ω₁ SoundSource} {source' : Exec ω₂ SoundSource}
    (hsource : R _ source source') : R _ (Exec.sound source) (Exec.sound source') :=
  h.bind (h.popMany 2) fun _ => h.bind hsource fun _ => h.actText _ _

theorem setMusic {target : Exec ω₁ (Option Actor)} {target' : Exec ω₂ (Option Actor)}
    (htarget : R _ target target') (v : Values 3) :
    R _ (Exec.setMusic target v) (Exec.setMusic target' v) :=
  h.bind htarget fun _ => h.actText _ _

theorem inventory (effect : Option Actor → String → Int32 → Effect) (v : Values 2) :
    R _ (Exec.inventory effect v) (Exec.inventory effect v) :=
  h.bind h.activator fun _ => h.actText _ _

/-! ## Opcodes -/

/-- An opcode that does not jump, given that messages on the screen are related. -/
theorem executeWith (hhud : ∀ bold, R _ (Exec.endHudMessage bold) (Exec.endHudMessage bold))
    {op : Opcode} (hop : op.jumps = false) (operands : Array Int32) :
    R _ (Exec.executeWith op operands) (Exec.executeWith op operands) := by
  have hargument (source : Source) := h.argumentFrom operands source
  have harguments (n : Nat) (source : Source) := h.argumentsFrom operands 0 n source
  cases op with
  | restart | goto | branch _ | caseGoto | caseGotoSorted | call _ | returnVoid | returnVal =>
    cases hop
  | nop => exact h.pure ()
  | terminate | suspend => exact h.setStatus fun n => by simp
  | pushNumber => exact h.push _
  | pushBytes _ | pushByteList => exact h.pushAll _
  | drop => exact h.bind h.pop fun _ => h.pure ()
  | dup => exact h.bind h.peek fun v => h.push v
  | swap => exact h.bind (h.popMany 2) fun _ => h.bind (h.push _) fun _ => h.push _
  | binary _ | vectorAngle => exact h.bind (h.popMany 2) fun _ => h.push _
  | division op => exact h.division op
  | negateLogical | unaryMinus | sin | cos => exact h.bind h.pop fun _ => h.push _
  | pushVar scope => exact h.bind (h.loadVar scope _) fun v => h.push v
  | updateVar update scope => exact h.updateVar update scope _
  | pushArray scope =>
    exact h.bind h.pop fun element => h.bind (h.loadElement scope _ element) fun v => h.push v
  | updateArray update scope => exact h.updateElement update scope _
  | delay source => exact h.bind (hargument _) fun ticks => h.delay ticks
  | tagWait _ | polyWait _ | scriptWait _ =>
    exact h.bind (hargument _) fun _ => h.setStatus fun n => by simp
  | special argc source =>
    exact h.bind (h.specialFromOperands operands source argc.toNat) fun _ => h.pure ()
  | specialResult =>
    exact h.bind (h.specialFromOperands operands .stack 5) fun v => h.keepResult v
  | random _ | thingCount _ =>
    exact h.bind (harguments 2 _) fun _ => h.bind (h.ask rfl) fun _ => h.push _
  | lineSide => exact h.inst fun _ _ _ _ => h.push _
  | playerCount | gameType | gameSkill | timer | isNetworkGame | singlePlayer =>
    exact h.bind (h.ask rfl) fun _ => h.push _
  | playerHealth => exact h.pushOfActivator fun a => h.ask (c := .playerHealth a) rfl
  | playerArmorPoints => exact h.pushOfActivator fun a => h.ask (c := .playerArmor a) rfl
  | playerFrags => exact h.pushOfActivator fun a => h.ask (c := .playerFrags a) rfl
  | activatorTid => exact h.pushOfActivator fun a => h.ask (c := .actorTid a) rfl
  | playerNumber => exact h.pushPlayerNumber
  | playerInGame => exact h.pushPlayerInGame
  | actorPosition axis => exact h.bind h.pop fun _ => h.bind (h.ask rfl) fun _ => h.push _
  | checkInventory _ =>
    exact h.bind (hargument _) fun name => h.bind (h.text name) fun item =>
      h.pushOfActivator fun a => h.ask (c := .inventoryCount a item) rfl
  | strLen => exact h.pushTextLength
  | changeFlat _ _ => exact h.bind (harguments 2 _) fun _ => h.actText _ _
  | clearLineSpecial => exact h.clearLineSpecial
  | setLineTexture => exact h.bind (h.popMany 4) fun _ => h.actText _ _
  | setLineBlocking _ => exact h.bind (h.popMany 2) fun _ => h.act _
  | setLineSpecial => exact h.bind (h.popMany 7) fun _ => h.act _
  | setGravity _ | setAirControl _ => exact h.bind (hargument _) fun _ => h.act _
  | clearInventory => exact h.bind h.activator fun _ => h.act _
  | giveInventory _ | takeInventory _ => exact h.bind (harguments 2 _) fun v => h.inventory _ v
  | spawn _ =>
    exact h.bind (harguments 6 _) fun _ => h.bind (h.text _) fun _ =>
      h.bind (h.perform _) fun _ => h.push _
  | spawnSpot _ =>
    exact h.bind (harguments 4 _) fun _ => h.bind (h.text _) fun _ =>
      h.bind (h.perform _) fun _ => h.push _
  | beginPrint => exact h.clearPrint
  | printString => exact h.bind h.pop fun index => h.bind (h.text index) fun s => h.append s
  | printLocalized =>
    exact h.bind h.pop fun index => h.bind (h.text index) fun _ =>
      h.bind (h.ask rfl) fun s => h.append s
  | printNumber | printCharacter | printFixed => exact h.bind h.pop fun _ => h.append _
  | printName => exact h.bind h.pop fun v => h.bind (h.nameText v) fun s => h.append s
  | endPrint bold =>
    exact h.bind (h.printTarget bold) fun _ => h.bind h.takePrint fun _ => h.act _
  | moreHudMessage => exact h.setHudMark none
  | optHudMessage => exact h.bind h.depth fun _ => h.setHudMark _
  | endHudMessage bold => exact hhud bold
  | setFont _ => exact h.bind (hargument _) fun _ => h.actText _ _
  | sectorSound => exact h.sound (h.inst fun _ _ _ _ => h.pure _)
  | ambientSound => exact h.sound (h.pure _)
  | localAmbientSound | activatorSound => exact h.sound (h.bind h.activator fun _ => h.pure _)
  | thingSound => exact h.bind (h.popMany 3) fun _ => h.actText _ _
  | soundSequence =>
    exact h.bind h.pop fun _ => h.bind (h.text _) fun _ => h.inst fun _ _ _ _ => h.act _
  | musicChange => exact h.bind (h.popMany 2) fun _ => h.actText _ _
  | setMusic _ => exact h.bind (harguments 3 _) fun v => h.setMusic (h.pure none) v
  | localSetMusic _ => exact h.bind (harguments 3 _) fun v => h.setMusic h.playerTarget v
  | fadeTo => exact h.bind (h.popMany 5) fun _ => h.bind h.playerTarget fun _ => h.act _
  | fadeRange => exact h.bind (h.popMany 9) fun _ => h.bind h.playerTarget fun _ => h.act _
  | cancelFade => exact h.bind h.playerTarget fun _ => h.act _

end Parts

end Exec

end LevelScript
