import LevelScript.Machine.Run
import LevelScript.Proofs.Instruction.Reading

/-!
# Operands read beforehand

An instruction reads each operand when it comes to it. Here all operands of an opcode's layout are
read first, and `executeWith` executes the opcode on them. The two ways end in the same machine, or
fault alike; where they fault, only the offset may differ.

* `Exec.Takes`: a computation reads the operands of a layout.
* `Exec.agrees`: both ways of executing an opcode, for every opcode.
* `Machine.step_eq`: a step of the machine, with the operands read beforehand.
-/

namespace LevelScript

namespace Exec

variable {ω : Type}

/-! ## Instructions with their operands -/

/-- Operands from a place on. -/
def inlineFrom (operands : Array Int32) (start n : Nat) : Values n :=
  Vector.ofFn fun i => operands.getD (start + i) 0

/-- The value of an instruction that takes one. -/
def argumentFrom (operands : Array Int32) : Source → Exec ω Int32
  | .stack => pop
  | _ => pure (operands.getD 0 0)

/-- The values of an instruction that takes `n`; in the code they start at a place. -/
def argumentsFrom (operands : Array Int32) (start n : Nat) : Source → Exec ω (Values n)
  | .stack => popMany n
  | _ => pure (inlineFrom operands start n)

def pushAll : List Int32 → Exec ω Unit
  | [] => pure ()
  | v :: rest => do
    push v
    pushAll rest

def caseGotoFrom (operands : Array Int32) : Exec ω Unit := do
  let v ← peek
  match searchOperands operands v 0 (operands.getD 0 0).toUInt32.toNat with
  | some target =>
    let _ ← pop
    jump target
  | none => pure ()

/-- Stops at operands that are missing. Bytes that are pushed one by one are pushed up to there. -/
def stopAtOperands (op : Opcode) (values : Array Int32) (fault : Fault) : Exec ω Unit := do
  match op with
  | .pushBytes _ => pushAll values.toList
  | .pushByteList => pushAll (values.toList.drop 1)
  | _ => pure ()
  throw fault

variable [Host ω]

def specialFromOperands (operands : Array Int32) (source : Source) (argc : Nat) :
    Exec ω Int32 := do
  let args ← argumentsFrom operands 1 argc source
  special (operands.getD 0 0) (.ofList args.toList)

/-- Executes an opcode with its operands; the offset is already after the instruction. -/
def executeWith (op : Opcode) (operands : Array Int32) : Exec ω Unit := do
  let index : UInt32 := (operands.getD 0 0).toUInt32
  match op with
  | .pushNumber => push (operands.getD 0 0)
  | .pushBytes _ => pushAll operands.toList
  | .pushByteList => pushAll (operands.toList.drop 1)
  | .pushVar scope => push (← loadVar scope index)
  | .updateVar update scope => updateVar update scope index
  | .pushArray scope => push (← loadElement scope index (← pop))
  | .updateArray update scope => updateElement update scope index
  | .goto => jump index
  | .branch whenTrue => branch whenTrue index
  | .caseGoto => caseGoto (operands.getD 0 0) (operands.getD 1 0).toUInt32
  | .caseGotoSorted => caseGotoFrom operands
  | .call discard => call index discard
  | .delay source => delay (← argumentFrom operands source)
  | .tagWait direct => setStatus (.tagWait (← argumentFrom operands (.ofDirect direct)))
  | .polyWait direct => setStatus (.polyWait (← argumentFrom operands (.ofDirect direct)))
  | .scriptWait direct => setStatus (.scriptWaitPre (← argumentFrom operands (.ofDirect direct)))
  | .special argc source => do let _ ← specialFromOperands operands source argc.toNat
  | .specialResult => keepResult (← specialFromOperands operands .stack 5)
  | .random source => pushRandom (← argumentsFrom operands 0 2 source)
  | .thingCount direct => thingCount (← argumentsFrom operands 0 2 (.ofDirect direct))
  | .checkInventory direct => checkInventory (← argumentFrom operands (.ofDirect direct))
  | .changeFlat surface direct =>
    changeFlat surface (← argumentsFrom operands 0 2 (.ofDirect direct))
  | .setGravity direct => act (.setGravity (← argumentFrom operands (.ofDirect direct)))
  | .setAirControl direct => act (.setAirControl (← argumentFrom operands (.ofDirect direct)))
  | .giveInventory direct =>
    inventory .giveInventory (← argumentsFrom operands 0 2 (.ofDirect direct))
  | .takeInventory direct =>
    inventory .takeInventory (← argumentsFrom operands 0 2 (.ofDirect direct))
  | .spawn direct => spawn (← argumentsFrom operands 0 6 (.ofDirect direct))
  | .spawnSpot direct => spawnSpot (← argumentsFrom operands 0 4 (.ofDirect direct))
  | .setFont direct => setFont (← argumentFrom operands (.ofDirect direct))
  | .setMusic direct => setMusic (pure none) (← argumentsFrom operands 0 3 (.ofDirect direct))
  | .localSetMusic direct =>
    setMusic playerTarget (← argumentsFrom operands 0 3 (.ofDirect direct))
  | op => execute op

/-- Executes an opcode whose operands start at `next`: reads them and then does the rest. -/
def executeAfter (op : Opcode) (next : UInt32) : Exec ω Unit := do
  let ctx ← read
  let operands := Operands.read ctx.program.codeWidth ctx.program.image op.layout next
  match operands.fault with
  | some f => stopAtOperands op operands.values f
  | none =>
    jump operands.next
    executeWith op operands.values

/-- Executes the instruction with a number, which stands at `pc`; its operands start at `next`. -/
def obey (script : Int32) (pc raw next : UInt32) : Exec ω Unit := do
  match Opcode.ofNumber? raw with
  | none =>
    note (.unknownOpcode script raw pc)
    jump next
  | some op =>
    note (.executing script pc op)
    executeAfter op next

/-- The next instruction, with its operands read beforehand. -/
def stepWhole : Exec ω Unit := fun ctx m =>
  match Code.readNumber ctx.program.codeWidth ctx.program.image m.inst.pc with
  | .ok (raw, next) => obey m.inst.number m.inst.pc raw next ctx m
  | .error f => .error f m

/-! ## Results that differ in an offset -/

/-- The same result, or the same fault in machines that differ at most in the offset. -/
inductive Same {ω α : Type} : EStateM.Result Fault (Machine ω) α →
    EStateM.Result Fault (Machine ω) α → Prop
  | ok (a : α) (m : Machine ω) : Same (.ok a m) (.ok a m)
  | error (f : Fault) (m : Machine ω) (p q : UInt32) :
      Same (.error f (m.moveTo p)) (.error f (m.moveTo q))

omit [Host ω] in
@[simp] theorem moveTo_moveTo (m : Machine ω) (p q : UInt32) :
    (m.moveTo p).moveTo q = m.moveTo q := rfl

omit [Host ω] in
theorem Same.refl {α : Type} (r : EStateM.Result Fault (Machine ω) α) : Same r r := by
  cases r with
  | ok a m => exact .ok a m
  | error f m => exact .error f m m.inst.pc m.inst.pc

/-! ## Reading the operands of a layout -/

section Bind

variable {ω α β : Type} {x : Exec ω α} {ctx : Context} {m m' : Machine ω}

theorem bind_ok {a : α} (h : x ctx m = .ok a m') (k : α → Exec ω β) :
    (x >>= k) ctx m = k a ctx m' := by
  show EStateM.bind (x ctx) (fun a => k a ctx) m = _
  rw [EStateM.bind, h]

theorem bind_error {f : Fault} (h : x ctx m = .error f m') (k : α → Exec ω β) :
    (x >>= k) ctx m = .error f m' := by
  show EStateM.bind (x ctx) (fun a => k a ctx) m = _
  rw [EStateM.bind, h]

end Bind

/-- The computation reads the operands of a layout and gives a value that `R` relates to them, or
faults where the reading of the layout does. -/
def Takes {ω α : Type} (x : Exec ω α) (layout : List OperandKind)
    (R : Array Int32 → α → Prop) : Prop :=
  ∀ (ctx : Context) (m : Machine ω) (ops : Operands), ops.fault = none →
    let after := ops.readFrom ctx.program.codeWidth ctx.program.image layout
    (∀ f, after.fault = some f → x ctx (m.moveTo ops.next) = .error f (m.moveTo after.next)) ∧
    (after.fault = none → ∃ vs a, after.values = ops.values ++ vs ∧ R vs a ∧
      x ctx (m.moveTo ops.next) = .ok a (m.moveTo after.next))

section Takes

variable {ω α β : Type} {xs ys : List OperandKind} {R : Array Int32 → α → Prop}

theorem takes_pure (a : α) : Takes (ω := ω) (pure a) [] fun vs b => vs = #[] ∧ b = a :=
  fun _ _ ops h => ⟨fun f hf => absurd (h.symm.trans hf) (by simp),
    fun _ => ⟨#[], a, by simp [Operands.readFrom], ⟨rfl, rfl⟩, rfl⟩⟩

theorem Takes.bind {x : Exec ω α} {k : α → Exec ω β} {S : α → Array Int32 → β → Prop}
    (hx : Takes x xs R) (hk : ∀ a, Takes (k a) ys (S a)) :
    Takes (x >>= k) (xs ++ ys) fun vs b => ∃ us ws a, vs = us ++ ws ∧ R us a ∧ S a ws b := by
  intro ctx m ops h
  obtain ⟨hfault, hok⟩ := hx ctx m ops h
  dsimp only at hfault hok ⊢
  rw [Operands.readFrom_append]
  generalize ops.readFrom ctx.program.codeWidth ctx.program.image xs = mid at hfault hok ⊢
  cases hmid : mid.fault with
  | some f =>
    rw [Operands.readFrom_of_fault hmid, bind_error (hfault f hmid)]
    exact ⟨fun g hg => by rw [Option.some.inj (hmid.symm.trans hg)],
      fun hnone => absurd (hmid.symm.trans hnone) (by simp)⟩
  | none =>
    obtain ⟨us, a, hvalues, hR, hrun⟩ := hok hmid
    obtain ⟨hfault', hok'⟩ := hk a ctx m mid hmid
    rw [bind_ok hrun]
    refine ⟨hfault', fun hnone => ?_⟩
    obtain ⟨ws, b, hvalues', hS, hrun'⟩ := hok' hnone
    exact ⟨us ++ ws, b, by rw [hvalues', hvalues, Array.append_assoc], ⟨us, ws, a, rfl, hR, hS⟩,
      hrun'⟩

theorem Takes.mono {x : Exec ω α} {S : Array Int32 → α → Prop} (hx : Takes x xs R)
    (h : ∀ vs a, R vs a → S vs a) : Takes x xs S := by
  intro ctx m ops hops
  obtain ⟨hfault, hok⟩ := hx ctx m ops hops
  refine ⟨hfault, fun hnone => ?_⟩
  obtain ⟨vs, a, hvalues, hR, hrun⟩ := hok hnone
  exact ⟨vs, a, hvalues, h vs a hR, hrun⟩

/-- A number that is read as an operand of one kind. -/
theorem takes_one {kind : OperandKind} {x : Exec ω α} (value : α → Int32)
    (read : CodeWidth → Image → UInt32 → Except Fault (UInt32 × UInt32))
    (hkind : ∀ width image (ops : Operands),
      Operands.readKind width image ops kind = ops.add (read width image ops.next))
    (herror : ∀ (ctx : Context) (m : Machine ω) f,
      read ctx.program.codeWidth ctx.program.image m.inst.pc = .error f → x ctx m = .error f m)
    (hok : ∀ (ctx : Context) (m : Machine ω) v next,
      read ctx.program.codeWidth ctx.program.image m.inst.pc = .ok (v, next) →
        ∃ a, value a = v.toInt32 ∧ x ctx m = .ok a (m.moveTo next)) :
    Takes x [kind] fun vs a => vs = #[value a] := by
  intro ctx m ops hops
  dsimp only
  rw [Operands.readFrom_cons hops, hkind]
  cases hread : read ctx.program.codeWidth ctx.program.image ops.next with
  | error f =>
    refine ⟨fun g hg => ?_, fun hnone => absurd hnone (by simp [Operands.readFrom, Operands.add])⟩
    obtain rfl : f = g := by simpa [Operands.readFrom, Operands.add] using hg
    exact herror ctx (m.moveTo ops.next) f hread
  | ok r =>
    obtain ⟨v, next⟩ := r
    obtain ⟨a, ha, hrun⟩ := hok ctx (m.moveTo ops.next) v next hread
    refine ⟨fun g hg => absurd (hops.symm.trans hg) (by simp), fun _ => ?_⟩
    exact ⟨#[value a], a, by simp [Operands.readFrom, Operands.add, ha], rfl, hrun⟩

theorem takes_word : Takes (ω := ω) word [.word] fun vs a => vs = #[a] := by
  refine takes_one id (fun _ => Code.readWord) (fun _ _ _ => rfl) ?_ ?_
  · intro ctx m f h
    simp only [word, readCode, bind, ReaderT.bind, EStateM.bind, h]
  · intro ctx m v next h
    refine ⟨v.toInt32, rfl, ?_⟩
    simp only [word, readCode, bind, ReaderT.bind, EStateM.bind, h]
    rfl

theorem takes_index : Takes (ω := ω) index [.index] fun vs a => vs = #[a.toInt32] := by
  refine takes_one UInt32.toInt32 Code.readIndex (fun _ _ _ => rfl) ?_ ?_
  · intro ctx m f h
    simp only [index, readCode, h]
  · intro ctx m v next h
    refine ⟨v, rfl, ?_⟩
    simp only [index, readCode, h]
    rfl

theorem raw_of_error {ctx : Context} {m : Machine ω} {f : Fault}
    (h : Code.readRaw ctx.program.image m.inst.pc = .error f) : raw ctx m = .error f m := by
  simp only [raw, readCode, bind, ReaderT.bind, EStateM.bind, h]

theorem raw_of_ok {ctx : Context} {m : Machine ω} {b : UInt8} {next : UInt32}
    (h : Code.readRaw ctx.program.image m.inst.pc = .ok (b, next)) :
    raw ctx m = .ok b.toUInt32.toInt32 (m.moveTo next) := by
  simp only [raw, readCode, bind, ReaderT.bind, EStateM.bind, h]
  rfl

theorem takes_raw : Takes (ω := ω) raw [.raw] fun vs a => vs = #[a] := by
  refine takes_one id (fun _ => Operands.rawAsWord) (fun _ _ _ => rfl) ?_ ?_
  · intro ctx m f h
    cases hraw : Code.readRaw ctx.program.image m.inst.pc with
    | error g =>
      simp only [Operands.rawAsWord, hraw, Except.map, Except.error.injEq] at h
      rw [raw_of_error hraw, h]
    | ok r => simp [Operands.rawAsWord, hraw, Except.map] at h
  · intro ctx m v next h
    cases hraw : Code.readRaw ctx.program.image m.inst.pc with
    | error g => simp [Operands.rawAsWord, hraw, Except.map] at h
    | ok r =>
      simp only [Operands.rawAsWord, hraw, Except.map, Except.ok.injEq, Prod.mk.injEq] at h
      obtain ⟨rfl, rfl⟩ := h
      exact ⟨_, rfl, raw_of_ok hraw⟩

theorem takes_many {kind : OperandKind} {one : Exec ω Int32}
    (h : Takes one [kind] fun vs a => vs = #[a]) (n : Nat) :
    Takes (many one n) (List.replicate n kind) fun vs v => vs = v.toArray := by
  induction n with
  | zero => exact (takes_pure _).mono fun vs a ⟨hvs, ha⟩ => by rw [hvs, ha]
  | succ n ih =>
    rw [List.replicate_succ']
    refine (ih.bind fun first => h.bind fun last => takes_pure (first.push last)).mono ?_
    rintro vs v ⟨us, ws, first, rfl, rfl, ws', _, last, rfl, rfl, rfl, rfl⟩
    simp

end Takes

/-! ## One opcode -/

section Opcodes

variable {ω : Type} [Host ω] {op : Opcode}

theorem inlineFrom_append {n : Nat} (us : Array Int32) (v : Values n) :
    inlineFrom (us ++ v.toArray) us.size n = v := by
  ext i hi
  simp [inlineFrom]

theorem inlineFrom_toArray {n : Nat} (v : Values n) : inlineFrom v.toArray 0 n = v := by
  have h := inlineFrom_append #[] v
  rwa [Array.empty_append] at h

/-- Both ways of executing the opcode agree. -/
def Agrees (op : Opcode) (ω : Type) [Host ω] : Prop :=
  ∀ (ctx : Context) (m : Machine ω) (next : UInt32),
    Same (execute op ctx (m.moveTo next)) (executeAfter op next ctx m)

theorem executeAfter_of_fault {ctx : Context} {m : Machine ω} {next : UInt32} {f : Fault}
    (h : (Operands.read ctx.program.codeWidth ctx.program.image op.layout next).fault = some f) :
    executeAfter op next ctx m = stopAtOperands op
      (Operands.read ctx.program.codeWidth ctx.program.image op.layout next).values f ctx m := by
  show (match (Operands.read _ _ op.layout next).fault with
    | some f => stopAtOperands op _ f
    | none => _ : Exec ω Unit) ctx m = _
  rw [h]

theorem executeAfter_of_whole {ctx : Context} {m : Machine ω} {next : UInt32}
    (h : (Operands.read ctx.program.codeWidth ctx.program.image op.layout next).fault = none) :
    executeAfter op next ctx m = executeWith op
      (Operands.read ctx.program.codeWidth ctx.program.image op.layout next).values ctx
      (m.moveTo (Operands.read ctx.program.codeWidth ctx.program.image op.layout next).next) := by
  show (match (Operands.read _ _ op.layout next).fault with
    | some f => stopAtOperands op _ f
    | none => _ : Exec ω Unit) ctx m = _
  rw [h]
  rfl

/-- An opcode that has no operands. -/
theorem agrees_of_plain (hlayout : op.layout = [])
    (h : executeWith (ω := ω) op #[] = execute op) : Agrees op ω := by
  intro ctx m next
  have hread : Operands.read ctx.program.codeWidth ctx.program.image op.layout next =
      ⟨#[], next, none⟩ := by rw [hlayout]; rfl
  rw [executeAfter_of_whole (by rw [hread]), hread, h]
  exact .refl _

/-- An opcode that reads its operands and then does the rest. -/
theorem agrees_of_takes {α : Type} {x : Exec ω α} {k : α → Exec ω Unit}
    {layout : List OperandKind} {R : Array Int32 → α → Prop} (hx : Takes x layout R)
    (hlayout : op.layout = layout) (hexecute : execute op = x >>= k)
    (hstop : ∀ values f, stopAtOperands (ω := ω) op values f = throw f)
    (hk : ∀ vs a, R vs a → executeWith op vs = k a) : Agrees op ω := by
  subst hlayout
  intro ctx m next
  obtain ⟨hfault, hok⟩ := hx ctx m ⟨#[], next, none⟩ rfl
  dsimp only at hfault hok
  rw [hexecute]
  cases h : (Operands.read ctx.program.codeWidth ctx.program.image op.layout next).fault with
  | some f =>
    rw [bind_error (hfault f h), executeAfter_of_fault h, hstop]
    exact .error f m _ m.inst.pc
  | none =>
    obtain ⟨vs, a, hvalues, hR, hrun⟩ := hok h
    rw [bind_ok hrun, executeAfter_of_whole h]
    rw [Array.empty_append] at hvalues
    rw [show (Operands.read ctx.program.codeWidth ctx.program.image op.layout next).values = vs
      from hvalues, hk vs a hR]
    exact .refl _

/-! ## Bytes that are pushed -/

section Push

variable {ctx : Context} {m : Machine ω} {p : UInt32} (v : Int32)

omit [Host ω] in
theorem push_of_room (h : m.stack.size < ctx.config.stackCapacity) :
    push v ctx (m.moveTo p) = .ok () ({ m with stack := m.stack.push (.value v) }.moveTo p) :=
  if_pos h

omit [Host ω] in
theorem push_of_full (h : ¬ m.stack.size < ctx.config.stackCapacity) :
    push v ctx (m.moveTo p) = .error (.stackOverflow ctx.config.stackCapacity) (m.moveTo p) :=
  if_neg h

end Push

omit [Host ω] in
/-- Pushing bytes as they are read, and reading them before. -/
theorem same_pushRaw (ctx : Context) (n : Nat) (m : Machine ω) (ops : Operands)
    (hops : ops.fault = none) :
    let after := ops.readFrom ctx.program.codeWidth ctx.program.image (List.replicate n .raw)
    ∃ vs, after.values = ops.values ++ vs ∧
      (∀ f, after.fault = some f → ∀ p, Same (pushRaw n ctx (m.moveTo ops.next))
        ((pushAll vs.toList >>= fun _ => throw f) ctx (m.moveTo p))) ∧
      (after.fault = none → Same (pushRaw n ctx (m.moveTo ops.next))
        (pushAll vs.toList ctx (m.moveTo after.next))) := by
  induction n generalizing m ops with
  | zero =>
    exact ⟨#[], by simp [Operands.readFrom], fun f hf => absurd (hops.symm.trans hf) (by simp),
      fun _ => .refl _⟩
  | succ n ih =>
    dsimp only
    obtain ⟨hfault, hok⟩ := takes_raw (ω := ω) ctx m ops hops
    have hraw (rest : List OperandKind) :
        ops.readFrom ctx.program.codeWidth ctx.program.image (.raw :: rest) =
          (ops.add (Operands.rawAsWord ctx.program.image ops.next)).readFrom
            ctx.program.codeWidth ctx.program.image rest := Operands.readFrom_cons hops _ _
    rw [hraw] at hfault hok
    rw [List.replicate_succ, hraw]
    cases hread : Operands.rawAsWord ctx.program.image ops.next with
    | error f =>
      rw [hread] at hfault
      rw [Operands.readFrom_of_fault (f := f) rfl]
      refine ⟨#[], by simp [Operands.add], fun g hg p => ?_, fun hnone => by cases hnone⟩
      obtain rfl : f = g := Option.some.inj hg
      rw [pushRaw, bind_error (hfault f rfl)]
      exact .error f m _ _
    | ok r =>
      obtain ⟨v, next⟩ := r
      rw [hread] at hok
      obtain ⟨us, a, hvalues, rfl, hrun⟩ := hok hops
      obtain rfl : a = v.toInt32 := by
        have h := congrArg Array.back? hvalues
        simpa [Operands.readFrom, Operands.add] using h.symm
      obtain ⟨vs, hvs, hcut, hwhole⟩ := ih
        { m with stack := m.stack.push (.value v.toInt32) } (ops.add (.ok (v, next))) hops
      refine ⟨#[v.toInt32] ++ vs, by rw [hvs]; simp [Operands.add], ?_⟩
      rw [Array.toList_append, List.singleton_append, pushAll, pushRaw, bind_ok hrun]
      -- The byte is pushed, or the stack is full on both sides.
      by_cases hroom : m.stack.size < ctx.config.stackCapacity
      · have hpush (p : UInt32) := push_of_room (p := p) v.toInt32 hroom
        refine ⟨fun f hf p => ?_, fun hnone => ?_⟩
        · rw [bind_assoc, bind_ok (hpush _), bind_ok (hpush _)]
          exact hcut f hf p
        · rw [bind_ok (hpush _), bind_ok (hpush _)]
          exact hwhole hnone
      · have hpush (p : UInt32) := push_of_full (p := p) v.toInt32 hroom
        refine ⟨fun f hf p => ?_, fun hnone => ?_⟩
        · rw [bind_assoc, bind_error (hpush _), bind_error (hpush _)]
          exact .error _ m _ _
        · rw [bind_error (hpush _), bind_error (hpush _)]
          exact .error _ m _ _

theorem agrees_pushBytes (count : UpToFive) : Agrees (.pushBytes count) ω := by
  intro ctx m next
  obtain ⟨vs, hvalues, hcut, hwhole⟩ := same_pushRaw ctx count.toNat m ⟨#[], next, none⟩ rfl
  dsimp only at hvalues hcut hwhole
  rw [Array.empty_append] at hvalues
  cases h : (Operands.read ctx.program.codeWidth ctx.program.image
      (Opcode.pushBytes count).layout next).fault with
  | some f =>
    rw [executeAfter_of_fault h]
    have hrun := hcut f h m.inst.pc
    rwa [← hvalues] at hrun
  | none =>
    rw [executeAfter_of_whole h]
    have hrun := hwhole h
    rwa [← hvalues] at hrun

theorem agrees_pushByteList : Agrees .pushByteList ω := by
  intro ctx m next
  have hlayout : Operands.read ctx.program.codeWidth ctx.program.image Opcode.pushByteList.layout
      next = Operands.readKind ctx.program.codeWidth ctx.program.image ⟨#[], next, none⟩ .rawList :=
    rfl
  cases hraw : Code.readRaw ctx.program.image next with
  | error f =>
    have hread := hlayout
    simp only [Operands.readKind, hraw] at hread
    rw [executeAfter_of_fault (f := f) (by rw [hread]), hread]
    show Same ((raw >>= fun v => pushRaw v.toUInt32.toNat) ctx (m.moveTo next)) _
    rw [bind_error (raw_of_error (m := m.moveTo next) hraw)]
    exact .error f m next m.inst.pc
  | ok r =>
    obtain ⟨count, start⟩ := r
    have hread := hlayout
    simp only [Operands.readKind, hraw] at hread
    rw [Operands.readMany_raw ctx.program.codeWidth] at hread
    obtain ⟨vs, hvalues, hcut, hwhole⟩ := same_pushRaw ctx count.toNat m
      ⟨#[count.toUInt32.toInt32], start, none⟩ rfl
    rw [← show Operands.add ⟨#[], next, none⟩ (.ok (count.toUInt32, start)) =
      ⟨#[count.toUInt32.toInt32], start, none⟩ from rfl, ← hread] at hvalues hcut hwhole
    have hrest : (Operands.read ctx.program.codeWidth ctx.program.image
        Opcode.pushByteList.layout next).values.toList.drop 1 = vs.toList := by
      rw [hvalues]
      simp [Operands.add]
    have hstream : execute .pushByteList ctx (m.moveTo next) =
        pushRaw count.toNat ctx (m.moveTo start) := by
      show (raw >>= fun v => pushRaw v.toUInt32.toNat) ctx (m.moveTo next) = _
      rw [bind_ok (raw_of_ok (m := m.moveTo next) hraw)]
      simp
    rw [hstream]
    cases h : (Operands.read ctx.program.codeWidth ctx.program.image
        Opcode.pushByteList.layout next).fault with
    | some f =>
      rw [executeAfter_of_fault h]
      have hrun := hcut f h m.inst.pc
      rwa [← hrest] at hrun
    | none =>
      rw [executeAfter_of_whole h]
      have hrun := hwhole h
      rwa [← hrest] at hrun

/-! ## Case tables -/

omit [Host ω] in
/-- The computation neither looks at the offset nor moves it. -/
def Blind {α : Type} (x : Exec ω α) : Prop :=
  ∀ (ctx : Context) (m : Machine ω), ∃ m' : Machine ω,
    (∃ a, ∀ p, x ctx (m.moveTo p) = .ok a (m'.moveTo p)) ∨
      ∃ f, ∀ p, x ctx (m.moveTo p) = .error f (m'.moveTo p)

omit [Host ω] in
theorem blind_of_eq {α : Type} {x : Exec ω α} (h : ∀ ctx m p, x ctx (m.moveTo p) =
    match x ctx m with
    | .ok a m' => .ok a (m'.moveTo p)
    | .error f m' => .error f (m'.moveTo p)) : Blind x := by
  intro ctx m
  cases hx : x ctx m with
  | ok a m' => exact ⟨m', .inl ⟨a, fun p => by rw [h, hx]⟩⟩
  | error f m' => exact ⟨m', .inr ⟨f, fun p => by rw [h, hx]⟩⟩

omit [Host ω] in
theorem blind_peek : Blind (ω := ω) peek := by
  refine blind_of_eq fun ctx m p => ?_
  by_cases hdepth : m.stack.size ≤ ctx.base
  · simp only [peek, Machine.moveTo, hdepth, if_true]
  · simp only [peek, valueAt, Machine.moveTo, hdepth, if_false]
    rcases m.stack[m.stack.size - 1]? with _ | _ | _ <;> rfl

omit [Host ω] in
theorem blind_pop : Blind (ω := ω) pop := by
  refine blind_of_eq fun ctx m p => ?_
  by_cases hdepth : m.stack.size ≤ ctx.base
  · simp only [pop, Machine.moveTo, hdepth, if_true]
  · simp only [pop, Machine.moveTo, hdepth, if_false]
    rcases m.stack.back? with _ | _ | _ <;> rfl

/-- A table is searched in the code, and in the operands read before. -/
theorem agrees_caseGotoSorted : Agrees .caseGotoSorted ω := by
  intro ctx m next
  have hstream : execute .caseGotoSorted ctx (m.moveTo next) =
      (ofExcept (Code.caseTable ctx.program.image next) >>= fun table => peek >>= fun v =>
        ofExcept (searchCases ctx.program.image table.1 v 0 table.2.toNat) >>= fun found =>
          match found with
          | some target => pop >>= fun _ => jump target
          | none => jump (table.1 + 4 + table.2 * 8)) ctx (m.moveTo next) := rfl
  rw [hstream]
  cases htable : Code.caseTable ctx.program.image next with
  | error f =>
    have hread : Operands.read ctx.program.codeWidth ctx.program.image
        Opcode.caseGotoSorted.layout next = ⟨#[], next, some f⟩ := by
      show Operands.readKind ctx.program.codeWidth _ ⟨#[], next, none⟩ .caseTable = _
      simp only [Operands.readKind, htable]
    rw [executeAfter_of_fault (f := f) (by rw [hread]), hread]
    exact .error f m next m.inst.pc
  | ok table =>
    obtain ⟨base, count⟩ := table
    obtain ⟨hfault, hnext, hcount, -, hcases⟩ :=
      Operands.read_caseTable ctx.program.codeWidth htable
    rw [executeAfter_of_whole hfault]
    generalize Operands.read ctx.program.codeWidth ctx.program.image
      Opcode.caseGotoSorted.layout next = ops at hfault hnext hcount hcases ⊢
    have hsearch (v : Int32) := searchCases_eq hcases v 0 count.toNat (Nat.le_refl _)
    show Same ((peek >>= fun v => ofExcept _ >>= _) ctx (m.moveTo next))
      ((peek >>= fun v => _) ctx (m.moveTo ops.next))
    obtain ⟨m', ⟨v, hpeek⟩ | ⟨f, hpeek⟩⟩ := blind_peek (ω := ω) ctx m
    · rw [bind_ok (hpeek _), bind_ok (hpeek _), hsearch, hcount]
      cases searchOperands ops.values v 0 count.toNat with
      | none =>
        rw [hnext]
        exact .refl _
      | some target =>
        show Same ((pop >>= fun _ => jump target) ctx _) ((pop >>= fun _ => jump target) ctx _)
        obtain ⟨m'', ⟨v, hpop⟩ | ⟨f, hpop⟩⟩ := blind_pop (ω := ω) ctx m'
        · rw [bind_ok (hpop _), bind_ok (hpop _)]
          exact .refl _
        · rw [bind_error (hpop _), bind_error (hpop _)]
          exact .error f m'' _ _
    · rw [bind_error (hpeek _), bind_error (hpeek _)]
      exact .error f m' _ _

/-! ## All opcodes -/

/-- The operands of `n` values. -/
def kinds (n : Nat) : Source → List OperandKind
  | .stack => []
  | .words => List.replicate n .word
  | .bytes => List.replicate n .raw

omit [Host ω] in
theorem takes_argument {source : Source} (h : source ≠ .stack) :
    Takes (ω := ω) (argument source) (kinds 1 source) fun vs a => vs = #[a] := by
  cases source with
  | stack => exact absurd rfl h
  | words => exact takes_word
  | bytes => exact takes_raw

omit [Host ω] in
theorem takes_arguments {source : Source} (h : source ≠ .stack) (n : Nat) :
    Takes (ω := ω) (arguments n source) (kinds n source) fun vs v => vs = v.toArray := by
  cases source with
  | stack => exact absurd rfl h
  | words => exact takes_many takes_word n
  | bytes => exact takes_many takes_raw n

omit [Host ω] in
theorem argumentFrom_of_code {source : Source} (h : source ≠ .stack) (vs : Array Int32) :
    argumentFrom (ω := ω) vs source = pure (vs.getD 0 0) := by
  cases source with
  | stack => exact absurd rfl h
  | words => rfl
  | bytes => rfl

omit [Host ω] in
theorem argumentsFrom_of_code {source : Source} (h : source ≠ .stack) (vs : Array Int32)
    (start n : Nat) :
    argumentsFrom (ω := ω) vs start n source = pure (inlineFrom vs start n) := by
  cases source with
  | stack => exact absurd rfl h
  | words => rfl
  | bytes => rfl

/-- An opcode that takes one value, from the stack or from the code. -/
theorem agrees_argument (source : Source) (k : Int32 → Exec ω Unit)
    (hlayout : op.layout = kinds 1 source) (hexecute : execute op = argument source >>= k)
    (hstop : ∀ values f, stopAtOperands (ω := ω) op values f = throw f)
    (hwith : ∀ vs, executeWith op vs = argumentFrom vs source >>= k) : Agrees op ω := by
  by_cases h : source = .stack
  · subst h
    exact agrees_of_plain hlayout (by rw [hwith, hexecute]; rfl)
  · refine agrees_of_takes (takes_argument h) hlayout hexecute hstop fun vs a hvs => ?_
    rw [hwith, argumentFrom_of_code h, hvs]
    rfl

/-- An opcode that takes several values, from the stack or from the code. -/
theorem agrees_arguments (source : Source) (n : Nat) (k : Values n → Exec ω Unit)
    (hlayout : op.layout = kinds n source) (hexecute : execute op = arguments n source >>= k)
    (hstop : ∀ values f, stopAtOperands (ω := ω) op values f = throw f)
    (hwith : ∀ vs, executeWith op vs = argumentsFrom vs 0 n source >>= k) : Agrees op ω := by
  by_cases h : source = .stack
  · subst h
    exact agrees_of_plain hlayout (by rw [hwith, hexecute]; rfl)
  · refine agrees_of_takes (takes_arguments h n) hlayout hexecute hstop fun vs a hvs => ?_
    rw [hwith, argumentsFrom_of_code h, hvs, inlineFrom_toArray]
    rfl

/-- An opcode whose only operand is an index. -/
theorem agrees_index (k : UInt32 → Exec ω Unit) (hlayout : op.layout = [.index])
    (hexecute : execute op = index >>= k)
    (hstop : ∀ values f, stopAtOperands (ω := ω) op values f = throw f)
    (hwith : ∀ v : UInt32, executeWith op #[v.toInt32] = k v) : Agrees op ω :=
  agrees_of_takes takes_index hlayout hexecute hstop fun vs a h => by rw [h, hwith]

omit [Host ω] in
theorem takes_specialNumber (source : Source) : Takes (ω := ω) (specialNumber source)
    [if source = .bytes then .raw else .index] fun vs a => vs = #[a] := by
  have hindex : Takes (ω := ω) (index >>= fun i => pure i.toInt32) [.index]
      fun vs a => vs = #[a] :=
    (takes_index.bind fun i => takes_pure i.toInt32).mono fun vs a h => by
      obtain ⟨us, ws, i, rfl, rfl, rfl, rfl⟩ := h
      rfl
  cases source with
  | bytes => exact takes_raw
  | stack => exact hindex
  | words => exact hindex

theorem agrees_special (argc : UpToFive) (source : Source) : Agrees (.special argc source) ω := by
  let run (number : Int32) (args : Values argc.toNat) : Exec ω Unit := do
    let _ ← special number (.ofList args.toList)
  by_cases h : source = .stack
  · subst h
    refine agrees_of_takes (takes_specialNumber .stack) rfl
      (k := fun number => popMany argc.toNat >>= run number) ?_ (fun _ _ => rfl) fun vs a hvs => ?_
    · simp only [execute, specialFrom, bind_assoc]
      rfl
    · rw [hvs]
      simp only [executeWith, specialFromOperands, bind_assoc]
      rfl
  · have hread : Takes (ω := ω) (specialNumber source >>= fun number =>
          arguments argc.toNat source >>= fun args => pure (number, args))
        ([if source = .bytes then .raw else .index] ++ (kinds argc.toNat source ++ []))
        fun vs a => vs = #[a.1] ++ a.2.toArray :=
      ((takes_specialNumber source).bind fun number =>
        (takes_arguments h argc.toNat).bind fun args =>
          takes_pure (number, args)).mono fun vs a h => by
          obtain ⟨us, ws, number, rfl, rfl, ws', _, args, rfl, rfl, rfl, rfl⟩ := h
          simp
    refine agrees_of_takes hread ?_ (k := fun a => run a.1 a.2) ?_ (fun _ _ => rfl)
      fun vs a hvs => ?_
    · cases source with
      | stack => exact absurd rfl h
      | words => simp [Opcode.layout, kinds]
      | bytes => simp [Opcode.layout, kinds]
    · simp only [execute, specialFrom, bind_assoc, pure_bind]
      rfl
    · have hargs := inlineFrom_append #[a.1] a.2
      have hnumber : (#[a.1] ++ a.2.toArray).getD 0 0 = a.1 := by
        rw [Array.getD_eq_getD_getElem?, Array.getElem?_append_left (by simp)]
        rfl
      rw [hvs]
      simp only [executeWith, specialFromOperands, argumentsFrom_of_code h, pure_bind, hnumber]
      rw [show inlineFrom (#[a.1] ++ a.2.toArray) 1 argc.toNat = a.2 from hargs]

theorem agrees_specialResult : Agrees .specialResult ω := by
  refine agrees_of_takes (takes_specialNumber .stack) rfl (k := fun number => do
    let args ← popMany 5
    keepResult (← special number (.ofList args.toList))) ?_ (fun _ _ => rfl) fun vs a h => ?_
  · simp only [execute, specialFrom, bind_assoc]
    rfl
  · rw [h]
    simp only [executeWith, specialFromOperands, bind_assoc]
    rfl

theorem agrees (op : Opcode) : Agrees op ω := by
  cases op with
  | pushNumber | goto | branch _ =>
    exact agrees_of_takes takes_word rfl rfl (fun _ _ => rfl) fun vs a h => by rw [h]; rfl
  | pushBytes count => exact agrees_pushBytes count
  | pushByteList => exact agrees_pushByteList
  | pushVar _ | updateVar _ _ | pushArray _ | updateArray _ _ | call _ =>
    exact agrees_index _ rfl rfl (fun _ _ => rfl) fun _ => rfl
  | caseGoto =>
    refine agrees_of_takes (takes_many takes_word 2) rfl rfl (fun _ _ => rfl) fun vs a h => ?_
    rw [h]
    simp [executeWith, Values.nth, Vector.getD]
  | caseGotoSorted => exact agrees_caseGotoSorted
  | delay source =>
    exact agrees_argument source _ (by cases source <;> rfl) rfl (fun _ _ => rfl) fun _ => rfl
  | tagWait direct | polyWait direct | scriptWait direct | checkInventory direct
  | setGravity direct | setAirControl direct | setFont direct =>
    exact agrees_argument (.ofDirect direct) _ (by cases direct <;> rfl) rfl (fun _ _ => rfl)
      fun _ => rfl
  | special argc source => exact agrees_special argc source
  | specialResult => exact agrees_specialResult
  | random source =>
    exact agrees_arguments source 2 _ (by cases source <;> rfl) rfl (fun _ _ => rfl) fun _ => rfl
  | thingCount direct | changeFlat _ direct | giveInventory direct | takeInventory direct
  | spawn direct | spawnSpot direct | setMusic direct | localSetMusic direct =>
    exact agrees_arguments (.ofDirect direct) _ _ (by cases direct <;> rfl) rfl (fun _ _ => rfl)
      fun _ => rfl
  | _ => exact agrees_of_plain rfl rfl

end Opcodes

/-! ## Steps -/

variable {ω : Type} [Host ω]

theorem step_of_error {ctx : Context} {m : Machine ω} {f : Fault}
    (h : Code.readNumber ctx.program.codeWidth ctx.program.image m.inst.pc = .error f) :
    step ctx m = .error f m := by
  simp only [step, getInst, fetch, readCode, bind, ReaderT.bind, EStateM.bind, h]

theorem step_of_ok {ctx : Context} {m : Machine ω} {raw next : UInt32}
    (h : Code.readNumber ctx.program.codeWidth ctx.program.image m.inst.pc = .ok (raw, next)) :
    step ctx m = (match Opcode.ofNumber? raw with
      | none => note (.unknownOpcode m.inst.number raw m.inst.pc)
      | some op => do
        note (.executing m.inst.number m.inst.pc op)
        execute op) ctx (m.moveTo next) := by
  have hfetch : fetch ctx m = .ok raw (m.moveTo next) := by
    simp only [fetch, readCode, h]
    rfl
  unfold step
  refine (bind_ok (x := getInst) rfl _).trans ((bind_ok hfetch _).trans ?_)
  cases Opcode.ofNumber? raw with
  | none => rfl
  | some op => rfl

theorem stepWhole_of_error {ctx : Context} {m : Machine ω} {f : Fault}
    (h : Code.readNumber ctx.program.codeWidth ctx.program.image m.inst.pc = .error f) :
    stepWhole ctx m = .error f m := by
  rw [stepWhole, h]

theorem stepWhole_of_ok {ctx : Context} {m : Machine ω} {raw next : UInt32}
    (h : Code.readNumber ctx.program.codeWidth ctx.program.image m.inst.pc = .ok (raw, next)) :
    stepWhole ctx m = obey m.inst.number m.inst.pc raw next ctx m := by
  rw [stepWhole, h]

theorem same_step (ctx : Context) (m : Machine ω) : Same (step ctx m) (stepWhole ctx m) := by
  cases h : Code.readNumber ctx.program.codeWidth ctx.program.image m.inst.pc with
  | error f =>
    rw [step_of_error h, stepWhole_of_error h]
    exact .refl _
  | ok r =>
    obtain ⟨raw, next⟩ := r
    rw [step_of_ok h, stepWhole_of_ok h]
    dsimp only [obey]
    cases Opcode.ofNumber? raw with
    | none => exact .refl _
    | some op =>
      exact agrees op ctx
        { m with journal := m.journal.note (.executing m.inst.number m.inst.pc op) } next

end Exec

/-- A step of the machine, with the operands read beforehand. -/
theorem Machine.step_eq {ω : Type} [Host ω] (ctx : Context) (m : Machine ω) :
    m.step ctx = match Exec.stepWhole ctx m with
      | .ok _ m' => m'
      | .error f m' => (m'.moveTo m.inst.pc).fail (.aborted m.inst.number m.inst.pc f) := by
  have hsame := Exec.same_step ctx m
  rw [Machine.step]
  generalize Exec.step ctx m = r at hsame ⊢
  generalize Exec.stepWhole ctx m = r' at hsame ⊢
  cases hsame with
  | ok a m' => rfl
  | error f m' p q => rfl

end LevelScript
