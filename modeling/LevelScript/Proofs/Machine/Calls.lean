import LevelScript.Proofs.Machine.Frames

/-!
# Calls and returns

A call starts an activation, and a return from its function ends it. In between, every step keeps
off what lies under the function's frame, with one exception: a call counts the slots of the whole
instance, so that one with too few operands takes the record of its caller for an argument, and
what lies under it.

* `Machine.step_call`: what a call leaves on the stack.
* `Activation.step_return`: what a return from the function itself leaves.
* `Activation.step_cases`: what any other step does.
-/

namespace LevelScript

/-! ## What a call and a return do -/

namespace Exec

variable {ω : Type} {ctx : Context} {a : Activation} {m : Machine ω}

/-- A call within the activation that does not take the record for an argument. -/
theorem secludedAt_call (hm : a.Holds ctx m) (hcapacity : ctx.config.stackCapacity ≤ 2 ^ 32)
    {index : UInt32} {discard : Bool}
    (habove : ∀ f, ctx.program.function? index = some f →
      f.argCount.toNat ≤ a.base.toNat + m.stack.size →
      a.base.toNat + a.size + f.argCount.toNat < a.base.toNat + m.stack.size) :
    SecludedAt ctx a (call index discard) m := by
  refine secludedAt_read_bind ?_
  cases hf : ctx.program.function? index with
  | none => exact secludedAt_throw _
  | some f =>
    dsimp only
    split
    · exact secludedAt_throw_bind _ _
    · refine secludedAt_depth_bind ?_
      split
      · exact secludedAt_throw_bind _ _
      · rename_i hargc
        split
        · exact secludedAt_throw_bind _ _
        · have hbase := habove f hf (by omega)
          have hwidth : UInt32.size = 2 ^ 32 := rfl
          refine secludedAt_bind (secluded_pushZeros _ m hm) fun _ m₁ hm₁ => ?_
          refine secludedAt_getInst_bind ?_
          have hpush : SecludedAt ctx a (pushSlot (.record ⟨m₁.inst.pc, m₁.inst.frame,
              m₁.inst.function, discard⟩)) m₁ := by
            refine secludedAt_pushSlot hm₁ ?_
            rintro r ⟨⟩
            exact hm₁.current
          refine secludedAt_bind hpush fun _ m₂ hm₂ => ?_
          refine .inl ⟨(), _, hm₂.enter f.entry (.inr ⟨_, rfl, ?_⟩), fun _ _ => rfl⟩
          rw [UInt32.toNat_ofNat_of_lt' (by omega)]
          omega

/-- What a return does with the record that it finds. -/
def goBack (base : UInt32) (r : ReturnRecord) (v : Int32) : Exec ω Unit := do
  truncate base.toNat
  modifyInst ({ · with pc := r.returnPc, frame := r.callerFrame, function := r.callerFunction })
  unless r.discardResult do
    push v

theorem ret_of_record {base : UInt32} {r : ReturnRecord} (hframe : m.inst.frame = .stack base)
    (hr : m.record? ctx = some r) (v : Int32) : ret v ctx m = goBack base r v ctx m := by
  unfold Machine.record? at hr
  rw [hframe] at hr
  have hfunction : currentFunction ctx m = .ok (m.inst.function.bind ctx.program.function?) m := rfl
  refine (bind_ok (x := read) rfl _).trans ((bind_ok (x := getInst) rfl _).trans ?_)
  rw [hframe]
  refine (bind_ok hfunction _).trans ?_
  cases hf : m.inst.function.bind ctx.program.function? with
  | none =>
    rw [hf] at hr
    cases hr
  | some f =>
    rw [hf] at hr
    dsimp only at hr ⊢
    refine (bind_ok (x := get) rfl _).trans ?_
    split at hr
    next r' hslot =>
      cases hr
      rw [hslot]
      rfl
    next => cases hr

theorem ret_of_none (hr : m.record? ctx = none) (v : Int32) :
    ∃ f, ret v ctx m = .error f m := by
  unfold Machine.record? at hr
  have hfunction : currentFunction ctx m = .ok (m.inst.function.bind ctx.program.function?) m := rfl
  rw [ret, bind_ok (x := read) rfl, bind_ok (x := getInst) rfl]
  cases hframe : m.inst.frame with
  | script => exact ⟨_, rfl⟩
  | stack base =>
    dsimp only
    rw [bind_ok hfunction]
    cases hf : m.inst.function.bind ctx.program.function? with
    | none => exact ⟨_, rfl⟩
    | some f =>
      rw [hframe, hf] at hr
      dsimp only at hr ⊢
      rw [bind_ok (x := get) rfl]
      rcases hslot : m.stack[ctx.base + base.toNat + f.frameSize]? with _ | w | r
      · exact ⟨_, rfl⟩
      · exact ⟨_, rfl⟩
      · rw [hslot] at hr
        cases hr

/-- The record of a frame at or above the function's own. -/
theorem record?_on {base : UInt32} (hframe : m.inst.frame = .stack base)
    (hbase : a.base.toNat ≤ base.toNat) {lower : Array Slot} (hlower : lower.size = a.floor ctx) :
    (m.on lower).record? ctx =
      (m.inst.function.bind ctx.program.function?).bind fun f =>
        m.stack[base.toNat - a.base.toNat + f.frameSize]?.bind Slot.record? := by
  unfold Machine.record?
  rw [show (m.on lower).inst = m.inst from rfl, hframe]
  cases m.inst.function.bind ctx.program.function? with
  | none => rfl
  | some f =>
    have hslot : ctx.base + base.toNat + f.frameSize =
        a.floor ctx + (base.toNat - a.base.toNat + f.frameSize) := by
      rw [Activation.floor]
      omega
    dsimp only [Option.bind_some]
    rw [hslot, Machine.on_getElem? hlower]
    rcases m.stack[base.toNat - a.base.toNat + f.frameSize]? with _ | v | r <;> rfl

/-- A return within the activation, from a function that was called later. -/
theorem secludedAt_ret (hm : a.Holds ctx m) {base : UInt32} (hframe : m.inst.frame = .stack base)
    (hbase : a.base.toNat + a.size < base.toNat) (v : Int32) : SecludedAt ctx a (ret v) m := by
  have hrecord (lower : Array Slot) (hlower : lower.size = a.floor ctx) :
      (m.on lower).record? ctx = _ :=
    record?_on hframe (by omega) hlower
  cases hfound : (m.inst.function.bind ctx.program.function?).bind fun f =>
      m.stack[base.toNat - a.base.toNat + f.frameSize]?.bind Slot.record? with
  | none =>
    exact .inr (faultsAt_of_error fun lower hlower =>
      ret_of_none ((hrecord lower hlower).trans hfound) v)
  | some r =>
    refine secludedAt_of_eq (y := goBack base r v) (fun lower hlower =>
      ret_of_record (m := m.on lower) hframe ((hrecord lower hlower).trans hfound) v) ?_
    -- The record is above the function's own, so it leads back to a frame of the activation.
    have hinside : a.Inside r.callerFrame r.callerFunction := by
      obtain ⟨f, -, hslot⟩ := Option.bind_eq_some_iff.mp hfound
      obtain ⟨s, hs, hr⟩ := Option.bind_eq_some_iff.mp hslot
      cases s with
      | value w => cases hr
      | record r' =>
        cases hr
        exact hm.callers _ _ (by omega) hs
    refine secludedAt_bind (secludedAt_truncate hm hbase) fun _ => ?_
    refine secluded_bind (fun m₁ hm₁ => ?_) fun _ => ?_
    · exact .inl ⟨(), _, hm₁.enter r.returnPc hinside, fun _ _ => rfl⟩
    · split <;> simp

/-- The return that ends the activation. -/
theorem ret_own (hm : a.Holds ctx m) {f : Function}
    (hf : ctx.program.function? a.function = some f) (hsize : f.frameSize = a.size)
    (hframe : m.inst.frame = .stack a.base) (hfunction : m.inst.function = some a.function)
    (v : Int32) {lower : Array Slot} (hlower : lower.size = a.floor ctx) :
    ret v ctx (m.on lower) = .ok () ((a.back v m).on lower) := by
  have hlt := hm.size_lt
  have hroom := hm.room
  have hrecord : (m.on lower).record? ctx = some a.record := by
    rw [record?_on hframe (Nat.le_refl _) hlower, hfunction]
    simp [hf, hsize, hm.record, Slot.record?]
  have htruncate : truncate a.base.toNat ctx (m.on lower) =
      .ok () (({ m with stack := #[] } : Machine ω).on lower) := by
    have hempty : m.stack.shrink 0 = #[] := by
      apply Array.toList_inj.mp
      rw [Array.toList_shrink]
      rfl
    have hshrink := Machine.on_shrink (m := m) hlower 0
    rw [hempty] at hshrink
    rw [← hshrink]
    rfl
  rw [ret_of_record (m := m.on lower) hframe hrecord, goBack, bind_ok htruncate,
    bind_ok (x := modifyInst _) rfl]
  unfold Activation.back
  cases a.record.discardResult with
  | true => rfl
  | false =>
    refine (if_pos ?_).trans ?_
    · show (lower ++ #[]).size < _
      rw [Array.append_empty, hlower]
      omega
    · exact congrArg _ (Machine.on_push (m := { m with stack := #[], inst := _ }) (.value v))

end Exec

/-! ## Steps -/

namespace Machine

variable {ω : Type}

/-- The instruction that the machine is at. -/
def instruction (ctx : Context) (m : Machine ω) : Except Fault Instruction :=
  Instruction.decode ctx.program.codeWidth ctx.program.image m.inst.pc

def opcode? (ctx : Context) (m : Machine ω) : Option Opcode :=
  (m.instruction ctx).toOption.bind (·.opcode)

/-- The machine is at a call of a function. -/
structure Calls (ctx : Context) (m : Machine ω) (index : UInt32) (f : Function) (discard : Bool)
    (next : UInt32) : Prop where
  instruction : ∃ inst, m.instruction ctx = .ok inst ∧ inst.opcode = some (.call discard) ∧
    (inst.operands.getD 0 0).toUInt32 = index ∧ inst.next = next
  function : ctx.program.function? index = some f

/-- The function that the machine is about to call. -/
def callee? (ctx : Context) (m : Machine ω) : Option Function :=
  match m.instruction ctx with
  | .error _ => none
  | .ok inst =>
    match inst.opcode with
    | some (.call _) => ctx.program.function? (inst.operands.getD 0 0).toUInt32
    | _ => none

theorem Calls.callee?_eq {ctx : Context} {m : Machine ω} {index : UInt32} {f : Function}
    {discard : Bool} {next : UInt32} (h : m.Calls ctx index f discard next) :
    m.callee? ctx = some f := by
  obtain ⟨⟨inst, hinst, hop, rfl, -⟩, hf⟩ := h
  rw [callee?, hinst]
  dsimp only
  rw [hop]
  exact hf

/-- The machine is at a return with a value. -/
def Returns (ctx : Context) (m : Machine ω) (v : Int32) : Prop :=
  m.opcode? ctx = some .returnVoid ∧ v = 0 ∨ m.opcode? ctx = some .returnVal ∧ m.top? ctx = some v

/-- An instruction is noted, and its operands are read. -/
def begin (m : Machine ω) (op : Opcode) (next : UInt32) : Machine ω :=
  { m with journal := m.journal.note (.executing m.inst.number m.inst.pc op) }.moveTo next

/-- A number that is no opcode is noted and skipped. -/
def skip (m : Machine ω) (number next : UInt32) : Machine ω :=
  { m with journal := m.journal.note (.unknownOpcode m.inst.number number m.inst.pc) }.moveTo next

variable [Host ω] {ctx : Context} {m : Machine ω} {inst : Instruction}

theorem step_undecoded {f : Fault} (h : m.instruction ctx = .error f) :
    ∃ slots journal, m.step ctx = { m with
      inst := { m.inst with status := .pleaseRemove }, stack := slots, journal := journal } := by
  obtain ⟨g, p, pushed, journal, -, hstep⟩ := Exec.stop_at_operands h
  rw [step, hstep]
  exact ⟨_, _, rfl⟩

/-- The instruction that the machine is at is executed on its operands, or skipped. -/
theorem stepWhole_instruction (h : m.instruction ctx = .ok inst) :
    Exec.stepWhole ctx m = match inst.opcode with
      | none => .ok () (m.skip inst.number inst.next)
      | some op => Exec.executeWith op inst.operands ctx (m.begin op inst.next) := by
  cases hnumber : Code.readNumber ctx.program.codeWidth ctx.program.image m.inst.pc with
  | error f => simp [instruction, Instruction.decode, hnumber, bind, Except.bind] at h
  | ok r =>
    obtain ⟨raw, next⟩ := r
    rw [Exec.stepWhole_of_ok hnumber]
    simp only [instruction, Instruction.decode, hnumber, bind, Except.bind] at h
    unfold Exec.obey
    cases hraw : Opcode.ofNumber? raw with
    | none =>
      rw [hraw] at h
      cases h
      rfl
    | some op =>
      rw [hraw] at h
      dsimp only at h ⊢
      split at h
      next => cases h
      next hfault =>
        cases h
        rw [Exec.bind_ok (x := Exec.note _) rfl, Exec.executeAfter_of_whole hfault]
        rfl

/-- A step executes the instruction that the machine is at, or skips it. -/
theorem step_instruction (h : m.instruction ctx = .ok inst) :
    m.step ctx = match inst.opcode with
      | none => m.skip inst.number inst.next
      | some op => match Exec.executeWith op inst.operands ctx (m.begin op inst.next) with
        | .ok _ m' => m'
        | .error f m' => (m'.moveTo m.inst.pc).fail (.aborted m.inst.number m.inst.pc f) := by
  rw [step_eq, stepWhole_instruction h]
  cases inst.opcode with
  | none => rfl
  | some op => rfl

theorem step_of_ok {op : Opcode} {m' : Machine ω} (h : m.instruction ctx = .ok inst)
    (hop : inst.opcode = some op)
    (hrun : Exec.executeWith op inst.operands ctx (m.begin op inst.next) = .ok () m') :
    m.step ctx = m' := by
  rw [step_instruction h, hop]
  dsimp only
  rw [hrun]

theorem step_of_error {op : Opcode} {f : Fault} {m' : Machine ω} (h : m.instruction ctx = .ok inst)
    (hop : inst.opcode = some op)
    (hrun : Exec.executeWith op inst.operands ctx (m.begin op inst.next) = .error f m') :
    m.step ctx = (m'.moveTo m.inst.pc).fail (.aborted m.inst.number m.inst.pc f) := by
  rw [step_instruction h, hop]
  dsimp only
  rw [hrun]

end Machine

namespace Activation

variable {ω : Type} [Host ω] {ctx : Context} {a : Activation} {m : Machine ω} {inst : Instruction}

/-- Whatever lies under the frame, the next step is the same and leaves it there, and the function
has not returned; or the step ends the instance, and only the stack and the journal depend on what
lies there. -/
def Shields (a : Activation) (ctx : Context) (m : Machine ω) : Prop :=
  (∃ m', a.Holds ctx m' ∧
    ∀ lower, lower.size = a.floor ctx → (m.on lower).step ctx = m'.on lower) ∨
  ∃ m' : Machine ω, m'.inst.status = .pleaseRemove ∧ ∀ lower, lower.size = a.floor ctx →
    ∃ slots journal, (m.on lower).step ctx = { m' with stack := slots, journal := journal }

theorem shields_of_secluded {op : Opcode} (h : m.instruction ctx = .ok inst)
    (hop : inst.opcode = some op)
    (hrun : Exec.SecludedAt ctx a (Exec.executeWith op inst.operands) (m.begin op inst.next)) :
    a.Shields ctx m := by
  rcases hrun with ⟨v, m', hm', hrun⟩ | ⟨m', hfault⟩
  · exact .inl ⟨m', hm', fun lower hlower => Machine.step_of_ok (m := m.on lower) h hop
      (hrun lower hlower)⟩
  · refine .inr ⟨{ m' with inst := { m'.inst with pc := m.inst.pc, status := .pleaseRemove } }, rfl,
      fun lower hlower => ?_⟩
    obtain ⟨f, slots, hrun⟩ := hfault lower hlower
    exact ⟨slots, _, Machine.step_of_error (m := m.on lower) h hop hrun⟩

/-- The machine's current frame is the function's own. -/
def Own (a : Activation) (m : Machine ω) : Prop :=
  m.inst.frame = .stack a.base ∧ m.inst.function = some a.function

/-- The machine is at a call that would take the record for an argument. -/
def Swallowed (a : Activation) (ctx : Context) (m : Machine ω) : Prop :=
  ∃ f ∈ m.callee? ctx, f.argCount.toNat ≤ a.base.toNat + m.stack.size ∧
    a.base.toNat + m.stack.size ≤ a.base.toNat + a.size + f.argCount.toNat

omit [Host ω] in
theorem secludedAt_return (hm : a.Holds ctx m) (hown : ¬ a.Own m) (v : Int32) :
    Exec.SecludedAt ctx a (Exec.ret v) m := by
  rcases hm.current with hown' | ⟨base, hframe, hbase⟩
  · exact absurd hown' hown
  · exact Exec.secludedAt_ret hm hframe hbase v

omit [Host ω] in
theorem Holds.begin (hm : a.Holds ctx m) (op : Opcode) (next : UInt32) :
    a.Holds ctx (m.begin op next) := hm.congr rfl rfl rfl

omit [Host ω] in
theorem opcode?_eq (h : m.instruction ctx = .ok inst) : m.opcode? ctx = inst.opcode := by
  rw [Machine.opcode?, h]
  rfl

omit [Host ω] in
/-- The topmost value does not depend on what lies under the frame. -/
theorem top?_on (hm : a.Holds ctx m) {lower lower' : Array Slot}
    (h : lower.size = a.floor ctx) (h' : lower'.size = a.floor ctx) :
    (m.on lower).top? ctx = (m.on lower').top? ctx := by
  unfold Machine.top?
  rw [Machine.on_size h, Machine.on_size h', (Exec.back?_on hm lower).1,
    (Exec.back?_on hm lower').1]

/-- A return from the function itself ends the activation. What was under the frame is left as it
is, with the result on it. -/
theorem step_return (hm : a.Holds ctx m) {f : Function}
    (hf : ctx.program.function? a.function = some f) (hsize : f.frameSize = a.size)
    (hown : a.Own m) {v : Int32} {lower₀ : Array Slot} (hlower₀ : lower₀.size = a.floor ctx)
    (hv : (m.on lower₀).Returns ctx v) :
    ∃ m', ∀ lower, lower.size = a.floor ctx →
      (m.on lower).Returns ctx v ∧ (m.on lower).step ctx = (a.back v m').on lower := by
  cases h : m.instruction ctx with
  | error g =>
    have hnone : (m.on lower₀).opcode? ctx = none := by
      show (m.instruction ctx).toOption.bind _ = none
      rw [h]
      rfl
    rw [Machine.Returns, hnone] at hv
    rcases hv with ⟨hop, -⟩ | ⟨hop, -⟩ <;> cases hop
  | ok inst =>
    have hopcode (lower : Array Slot) : (m.on lower).opcode? ctx = inst.opcode :=
      opcode?_eq (m := m.on lower) h
    rw [Machine.Returns, hopcode] at hv
    rcases hv with ⟨hop, rfl⟩ | ⟨hop, htop⟩
    · refine ⟨m.begin .returnVoid inst.next, fun lower hlower => ⟨.inl ⟨?_, rfl⟩, ?_⟩⟩
      · rw [hopcode, hop]
      · exact Machine.step_of_ok (m := m.on lower) h hop
          (Exec.ret_own (hm.begin .returnVoid inst.next) hf hsize hown.1 hown.2 0 hlower)
    · have hbegin := hm.begin .returnVal inst.next
      rcases Exec.pop_on hbegin with ⟨w, hm₁, hrun⟩ | hfault
      · obtain ⟨htop₀, -⟩ := Exec.pop_eq_ok (hrun lower₀ hlower₀)
        obtain rfl : w = v := Option.some.inj (htop₀.symm.trans htop)
        refine ⟨{ m.begin .returnVal inst.next with stack := m.stack.pop },
          fun lower hlower => ⟨.inr ⟨?_, ?_⟩, ?_⟩⟩
        · rw [hopcode, hop]
        · rw [top?_on hm hlower hlower₀, htop]
        · have hret := Exec.ret_own hm₁ hf hsize hown.1 hown.2 w hlower
          exact Machine.step_of_ok (m := m.on lower) h hop
            ((Exec.bind_ok (hrun lower hlower) _).trans hret)
      · obtain ⟨_, hfault⟩ := hfault
        obtain ⟨g, slots, hrun⟩ := hfault lower₀ hlower₀
        have hok := Exec.pop_of_top? (m := (m.begin .returnVal inst.next).on lower₀) htop
        rw [hok] at hrun
        cases hrun

/-- Only a restart, a return from the function itself, and a call that takes the record for an
argument reach under the frame. -/
theorem step_cases (hm : a.Holds ctx m) (hcapacity : ctx.config.stackCapacity ≤ 2 ^ 32)
    {f : Function} (hf : ctx.program.function? a.function = some f) (hsize : f.frameSize = a.size)
    (hcall : ¬ a.Swallowed ctx m) :
    m.opcode? ctx = some .restart ∨ a.Shields ctx m ∨
    a.Own m ∧ ∃ v m', ∀ lower, lower.size = a.floor ctx →
      (m.on lower).Returns ctx v ∧ (m.on lower).step ctx = (a.back v m').on lower := by
  have hlower₀ : (Array.replicate (a.floor ctx) (Slot.value 0)).size = a.floor ctx :=
    Array.size_replicate
  cases h : m.instruction ctx with
  | error f =>
    exact .inr (.inl (.inr ⟨{ m with inst := { m.inst with status := .pleaseRemove } }, rfl,
      fun lower _ => Machine.step_undecoded (m := m.on lower) h⟩))
  | ok inst =>
    cases hop : inst.opcode with
    | none =>
      refine .inr (.inl (.inl ⟨m.skip inst.number inst.next, hm.congr rfl rfl rfl,
        fun lower _ => ?_⟩))
      rw [Machine.step_instruction (m := m.on lower) h, hop]
      rfl
    | some op =>
      have hbegin := hm.begin op inst.next
      have hopcode (lower : Array Slot) : (m.on lower).opcode? ctx = some op :=
        (opcode?_eq (m := m.on lower) h).trans hop
      cases op with
      | restart => exact .inl ((opcode?_eq h).trans hop)
      | call discard =>
        refine .inr (.inl (shields_of_secluded h hop
          (Exec.secludedAt_call hbegin hcapacity fun f hf hargs => ?_)))
        by_contra hle
        have hcalls : m.Calls ctx _ f discard inst.next := ⟨⟨inst, h, hop, rfl, rfl⟩, hf⟩
        exact hcall ⟨f, hcalls.callee?_eq, hargs, Nat.le_of_not_lt hle⟩
      | returnVoid =>
        by_cases hown : a.Own m
        · exact .inr (.inr ⟨hown, 0, step_return hm hf hsize hown hlower₀ (.inl ⟨hopcode _, rfl⟩)⟩)
        · exact .inr (.inl (shields_of_secluded h hop (secludedAt_return hbegin hown 0)))
      | returnVal =>
        rcases Exec.pop_on hbegin with ⟨v, hm₁, hrun⟩ | hfault
        · by_cases hown : a.Own m
          · obtain ⟨htop, -⟩ := Exec.pop_eq_ok (hrun _ hlower₀)
            exact .inr (.inr ⟨hown, v, step_return hm hf hsize hown hlower₀
              (.inr ⟨hopcode _, htop⟩)⟩)
          · exact .inr (.inl (shields_of_secluded h hop
              (Exec.secludedAt_bind_of_ok hrun (secludedAt_return hm₁ hown v))))
        · exact .inr (.inl (shields_of_secluded h hop (Exec.secludedAt_bind_of_fault hfault _)))
      | _ =>
        exact .inr (.inl (shields_of_secluded h hop (Exec.secluded_executeWith rfl _ _ hbegin)))

end Activation

/-! ## The start of an activation -/

/-- Slots with the function's other variables and a record above. -/
def Function.frameOn (f : Function) (slots : Array Slot) (r : ReturnRecord) : Array Slot :=
  (slots ++ Array.replicate (f.frameSize - f.argCount.toNat) (Slot.value 0)).push (.record r)

namespace Function

variable {f : Function} {slots : Array Slot} {r : ReturnRecord}

theorem argCount_le_frameSize (f : Function) : f.argCount.toNat ≤ f.frameSize :=
  Nat.le_max_left _ _

theorem frameOn_append (lower : Array Slot) :
    f.frameOn (lower ++ slots) r = lower ++ f.frameOn slots r := by
  simp [frameOn, Array.append_assoc]

theorem size_frameOn (h : slots.size = f.argCount.toNat) :
    (f.frameOn slots r).size = f.frameSize + 1 := by
  have hle := f.argCount_le_frameSize
  simp only [frameOn, Array.size_push, Array.size_append, Array.size_replicate]
  omega

/-- The record lies above the frame. -/
theorem frameOn_getElem? (h : slots.size = f.argCount.toNat) :
    (f.frameOn slots r)[f.frameSize]? = some (.record r) := by
  have hsize := size_frameOn (r := r) h
  rw [frameOn, Array.size_push] at hsize
  rw [frameOn, Array.getElem?_push, if_pos (by omega)]

end Function

namespace Exec

variable {ω : Type} {ctx : Context} {m m' : Machine ω}

theorem pushSlot_eq_ok {s : Slot} (h : pushSlot s ctx m = .ok () m') :
    m.stack.size < ctx.config.stackCapacity ∧ m' = { m with stack := m.stack.push s } := by
  unfold pushSlot at h
  split at h
  next hroom =>
    cases h
    exact ⟨hroom, rfl⟩
  next => cases h

theorem pushZeros_eq_ok {n : Nat} (h : pushZeros n ctx m = .ok () m') :
    m' = { m with stack := m.stack ++ Array.replicate n (.value 0) } := by
  induction n generalizing m with
  | zero =>
    cases h
    simp
  | succ n ih =>
    obtain ⟨_, m₁, hpush, hrest⟩ := bind_eq_ok h
    obtain ⟨-, rfl⟩ := pushSlot_eq_ok hpush
    rw [ih hrest]
    simp [Array.replicate_succ']

/-- A call leaves its arguments where they are. -/
theorem call_frame {index : UInt32} {f : Function} {discard : Bool}
    (hf : ctx.program.function? index = some f) (h : call index discard ctx m = .ok () m') :
    f.argCount.toNat ≤ m.stack.size - ctx.base ∧
    m.stack.size + (f.frameSize - f.argCount.toNat) < ctx.config.stackCapacity ∧
    m' = { m with
      stack := f.frameOn m.stack ⟨m.inst.pc, m.inst.frame, m.inst.function, discard⟩
      inst := { m.inst with
        frame := .stack (m.stack.size - ctx.base - f.argCount.toNat).toUInt32
        function := some index
        pc := f.entry } } := by
  obtain ⟨_, _, hread, hrest⟩ := bind_eq_ok h
  cases hread
  rw [hf] at hrest
  dsimp only at hrest
  split at hrest
  · exact absurd hrest throw_bind_ne_ok
  · obtain ⟨_, _, hdepth, hrest⟩ := bind_eq_ok hrest
    cases hdepth
    split at hrest
    · exact absurd hrest throw_bind_ne_ok
    · split at hrest
      · exact absurd hrest throw_bind_ne_ok
      · obtain ⟨_, m₁, hzeros, hrest⟩ := bind_eq_ok hrest
        obtain rfl := pushZeros_eq_ok hzeros
        obtain ⟨_, _, hinst, hrest⟩ := bind_eq_ok hrest
        cases hinst
        obtain ⟨_, m₂, hpush, hrest⟩ := bind_eq_ok hrest
        obtain ⟨hroom, rfl⟩ := pushSlot_eq_ok hpush
        cases hrest
        refine ⟨by omega, ?_, rfl⟩
        simpa using hroom

end Exec

namespace Machine

variable {ω : Type} [Host ω] {ctx : Context} {m : Machine ω} {index : UInt32} {f : Function}
  {discard : Bool} {next : UInt32}

/-- The activation that a call starts. Its frame starts with the topmost slots, one for each
argument. -/
def activation (m : Machine ω) (ctx : Context) (index : UInt32) (f : Function) (discard : Bool)
    (next : UInt32) : Activation where
  base := (m.stack.size - ctx.base - f.argCount.toNat).toUInt32
  function := index
  size := f.frameSize
  record := ⟨next, m.inst.frame, m.inst.function, discard⟩

theorem step_call (hcall : m.Calls ctx index f discard next) (hbase : ctx.base ≤ m.stack.size)
    (hcapacity : ctx.config.stackCapacity ≤ 2 ^ 32)
    (hrun : (m.step ctx).inst.status ≠ .pleaseRemove) :
    f.argCount.toNat ≤ m.stack.size - ctx.base ∧
    (m.activation ctx index f discard next).base.toNat =
      m.stack.size - ctx.base - f.argCount.toNat ∧
    ∃ m', (m.activation ctx index f discard next).Holds ctx m' ∧
      (m.activation ctx index f discard next).Own m' ∧
      m.step ctx = m'.on (m.stack.extract 0 (m.stack.size - f.argCount.toNat)) := by
  obtain ⟨⟨inst, hinst, hop, rfl, rfl⟩, hf⟩ := hcall
  cases h : Exec.executeWith (.call discard) inst.operands ctx (m.begin (.call discard) inst.next)
    with
  | error g m' =>
    rw [step_of_error hinst hop h] at hrun
    exact absurd rfl hrun
  | ok u m' =>
    obtain ⟨hargs, hroom, rfl⟩ := Exec.call_frame hf h
    change f.argCount.toNat ≤ m.stack.size - ctx.base at hargs
    change m.stack.size + _ < _ at hroom
    have hle := f.argCount_le_frameSize
    have hoffset : (m.stack.size - ctx.base - f.argCount.toNat).toUInt32.toNat =
        m.stack.size - ctx.base - f.argCount.toNat := by
      have hwidth : UInt32.size = 2 ^ 32 := rfl
      exact UInt32.toNat_ofNat_of_lt' (by omega)
    have hslots : m.stack = m.stack.extract 0 (m.stack.size - f.argCount.toNat) ++
        m.stack.extract (m.stack.size - f.argCount.toNat) m.stack.size := by
      rw [Array.extract_append_extract]
      simp
    have hcount : (m.stack.extract (m.stack.size - f.argCount.toNat) m.stack.size).size =
        f.argCount.toNat := by
      rw [Array.size_extract]
      omega
    refine ⟨hargs, hoffset, { (m.begin (.call discard) inst.next) with
      inst := { (m.begin (.call discard) inst.next).inst with
        frame := .stack (m.stack.size - ctx.base - f.argCount.toNat).toUInt32
        function := some (inst.operands.getD 0 0).toUInt32
        pc := f.entry }
      stack := f.frameOn (m.stack.extract (m.stack.size - f.argCount.toNat) m.stack.size)
        ⟨inst.next, m.inst.frame, m.inst.function, discard⟩ },
      ⟨.inl ⟨rfl, rfl⟩, Function.frameOn_getElem? hcount, ?_, ?_⟩, ⟨rfl, rfl⟩, ?_⟩
    · intro k r hk hr
      change f.frameSize < k at hk
      rw [Array.getElem?_eq_none (by rw [Function.size_frameOn hcount]; omega)] at hr
      cases hr
    · show ctx.base + (m.stack.size - ctx.base - f.argCount.toNat).toUInt32.toNat +
        (Function.frameOn _ _ _).size ≤ _
      rw [hoffset, Function.size_frameOn hcount]
      omega
    · rw [step_of_ok hinst hop h, on]
      dsimp only
      rw [← Function.frameOn_append, ← hslots]
      rfl

end Machine

end LevelScript
