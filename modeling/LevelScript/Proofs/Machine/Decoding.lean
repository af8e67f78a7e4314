import LevelScript.Proofs.World.Recorded

/-!
# Steps and decoded instructions

The decoder reads an instruction by the layout of its opcode, a step reads what the opcode needs
while it executes. Both see the same instruction.

* `Exec.stop_at_operands`: where an instruction is cut off, a step faults and has done nothing but
  push bytes that were there.
* `Instruction.Leads`: the offsets to which a decoded instruction can lead.
* `Exec.leads_executeWith`: an opcode executed on its operands goes to such an offset.
-/

namespace LevelScript

/-- The value on top of the instance's part of the stack. -/
def Machine.top? {ω : Type} (m : Machine ω) (ctx : Context) : Option Int32 :=
  if m.stack.size ≤ ctx.base then none
  else match m.stack.back? with
    | some (.value v) => some v
    | _ => none

/-- The record of the call that a return of the current function goes back from. -/
def Machine.record? {ω : Type} (m : Machine ω) (ctx : Context) : Option ReturnRecord :=
  match m.inst.frame, m.inst.function.bind ctx.program.function? with
  | .stack base, some f =>
    match m.stack[ctx.base + base.toNat + f.frameSize]? with
    | some (.record r) => some r
    | _ => none
  | _, _ => none

/-- The instruction can lead from a machine to an offset: the one after it, unless it jumps. -/
def Instruction.Leads {ω : Type} (ctx : Context) (m : Machine ω) (inst : Instruction)
    (pc : UInt32) : Prop :=
  match inst.opcode with
  | some .goto => ∃ target, inst.operands = #[target] ∧ pc = target.toUInt32
  | some (.branch whenTrue) => ∃ target v, inst.operands = #[target] ∧ m.top? ctx = some v ∧
      pc = if (v != 0) = whenTrue then target.toUInt32 else inst.next
  | some .caseGoto => ∃ value target v, inst.operands = #[value, target] ∧ m.top? ctx = some v ∧
      pc = if v = value then target.toUInt32 else inst.next
  | some .caseGotoSorted => ∃ v, m.top? ctx = some v ∧
      (pc = inst.next ∨ ∃ i target, inst.operands[2 * i + 1]? = some v ∧
        inst.operands[2 * i + 2]? = some target ∧ pc = target.toUInt32)
  | some (.call _) => ∃ index f, inst.operands = #[index] ∧
      ctx.program.function? index.toUInt32 = some f ∧ pc = f.entry
  | some .returnVoid | some .returnVal => ∃ r, m.record? ctx = some r ∧ pc = r.returnPc
  | some .restart => pc = m.inst.entry
  | _ => pc = inst.next

namespace Exec

variable {ω α β : Type} {ctx : Context} {m m' : Machine ω}

/-! ## Computations that succeed -/

theorem pc_of_push {v : Int32} (h : push v ctx m = .ok () m') : m'.inst.pc = m.inst.pc := by
  unfold push pushSlot at h
  split at h <;> cases h
  rfl

theorem throw_bind_ne_ok {f : Fault} {k : α → Exec ω β} {b : β} :
    (throw f >>= k) ctx m ≠ .ok b m' := nofun

theorem pop_eq_ok {v : Int32} (h : pop ctx m = .ok v m') :
    m.top? ctx = some v ∧ m' = { m with stack := m.stack.pop } := by
  unfold pop at h
  unfold Machine.top?
  split at h
  · cases h
  · rename_i hdepth
    rw [if_neg hdepth]
    split at h
    · rename_i w hback
      cases h
      exact ⟨by simp [hback], rfl⟩
    · cases h
    · cases h

/-- A pop gives the topmost value. -/
theorem pop_of_top? {v : Int32} (h : m.top? ctx = some v) :
    pop ctx m = .ok v { m with stack := m.stack.pop } := by
  unfold Machine.top? at h
  split at h
  next => cases h
  next hown =>
    rw [pop, if_neg hown]
    split at h
    next w hback =>
      cases h
      rw [hback]
    next => cases h

theorem peek_of_top? {v : Int32} (h : m.top? ctx = some v) : peek ctx m = .ok v m := by
  unfold Machine.top? at h
  split at h
  next => cases h
  next hown =>
    rw [peek, if_neg hown, valueAt]
    split at h
    next w hback =>
      cases h
      rw [← Array.back?, hback]
    next => cases h

theorem peek_eq_ok {v : Int32} (h : peek ctx m = .ok v m') : m.top? ctx = some v ∧ m' = m := by
  unfold peek valueAt at h
  unfold Machine.top?
  split at h
  · cases h
  · rename_i hdepth
    rw [if_neg hdepth, Array.back?]
    cases hslot : m.stack[m.stack.size - 1]? with
    | none =>
      rw [hslot] at h
      cases h
    | some slot =>
      rw [hslot] at h
      cases slot with
      | value w =>
        cases h
        exact ⟨rfl, rfl⟩
      | record r => cases h

theorem branch_eq_ok {whenTrue : Bool} {target : UInt32}
    (h : branch whenTrue target ctx m = .ok () m') :
    ∃ v, m.top? ctx = some v ∧
      m'.inst.pc = if (v != 0) = whenTrue then target else m.inst.pc := by
  obtain ⟨v, m₁, hpop, hrest⟩ := bind_eq_ok h
  obtain ⟨htop, rfl⟩ := pop_eq_ok hpop
  refine ⟨v, htop, ?_⟩
  by_cases htrue : (v != 0) = whenTrue
  · rw [if_pos (beq_iff_eq.mpr htrue)] at hrest
    cases hrest
    rw [if_pos htrue]
  · rw [if_neg (mt beq_iff_eq.mp htrue)] at hrest
    cases hrest
    rw [if_neg htrue]

theorem caseGoto_eq_ok {value : Int32} {target : UInt32}
    (h : caseGoto value target ctx m = .ok () m') :
    ∃ v, m.top? ctx = some v ∧ m'.inst.pc = if v = value then target else m.inst.pc := by
  obtain ⟨v, m₁, hpeek, hrest⟩ := bind_eq_ok h
  obtain ⟨htop, rfl⟩ := peek_eq_ok hpeek
  refine ⟨v, htop, ?_⟩
  by_cases hvalue : v = value
  · rw [if_pos (beq_iff_eq.mpr hvalue)] at hrest
    obtain ⟨w, m₂, -, hjump⟩ := bind_eq_ok hrest
    cases hjump
    rw [if_pos hvalue]
  · rw [if_neg (mt beq_iff_eq.mp hvalue)] at hrest
    cases hrest
    rw [if_neg hvalue]

theorem caseGotoFrom_eq_ok {operands : Array Int32}
    (h : caseGotoFrom operands ctx m = .ok () m') :
    ∃ v, m.top? ctx = some v ∧ (m'.inst.pc = m.inst.pc ∨
      searchOperands operands v 0 (operands.getD 0 0).toUInt32.toNat = some m'.inst.pc) := by
  obtain ⟨v, m₁, hpeek, hrest⟩ := bind_eq_ok h
  obtain ⟨htop, rfl⟩ := peek_eq_ok hpeek
  refine ⟨v, htop, ?_⟩
  cases hsearch : searchOperands operands v 0 (operands.getD 0 0).toUInt32.toNat with
  | none =>
    rw [hsearch] at hrest
    cases hrest
    exact .inl rfl
  | some target =>
    rw [hsearch] at hrest
    obtain ⟨w, m₂, -, hjump⟩ := bind_eq_ok hrest
    cases hjump
    exact .inr rfl

theorem call_eq_ok {index : UInt32} {discard : Bool}
    (h : call index discard ctx m = .ok () m') :
    ∃ f, ctx.program.function? index = some f ∧ m'.inst.pc = f.entry := by
  obtain ⟨_, _, hread, hrest⟩ := bind_eq_ok h
  cases hread
  cases hf : ctx.program.function? index with
  | none => rw [hf] at hrest; cases hrest
  | some f =>
    refine ⟨f, rfl, ?_⟩
    rw [hf] at hrest
    dsimp only at hrest
    split at hrest
    · exact absurd hrest throw_bind_ne_ok
    · obtain ⟨depth, m₁, -, hrest⟩ := bind_eq_ok hrest
      split at hrest
      · exact absurd hrest throw_bind_ne_ok
      · split at hrest
        · exact absurd hrest throw_bind_ne_ok
        · obtain ⟨_, m₂, -, hrest⟩ := bind_eq_ok hrest
          obtain ⟨_, m₃, -, hrest⟩ := bind_eq_ok hrest
          obtain ⟨_, m₄, -, henter⟩ := bind_eq_ok hrest
          cases henter
          rfl

theorem ret_eq_ok {v : Int32} (h : ret v ctx m = .ok () m') :
    ∃ r, m.record? ctx = some r ∧ m'.inst.pc = r.returnPc := by
  obtain ⟨_, _, hread, hrest⟩ := bind_eq_ok h
  cases hread
  obtain ⟨_, _, hinst, hrest⟩ := bind_eq_ok hrest
  cases hinst
  unfold Machine.record?
  cases hframe : m.inst.frame with
  | script => rw [hframe] at hrest; cases hrest
  | stack base =>
    rw [hframe] at hrest
    obtain ⟨_, _, hfunction, hrest⟩ := bind_eq_ok hrest
    cases hfunction
    cases hf : m.inst.function.bind ctx.program.function? with
    | none => rw [hf] at hrest; cases hrest
    | some f =>
      rw [hf] at hrest
      obtain ⟨_, _, hget, hrest⟩ := bind_eq_ok hrest
      cases hget
      dsimp only at hrest ⊢
      generalize m.stack[ctx.base + base.toNat + f.frameSize]? = slot at hrest ⊢
      match slot with
      | none => cases hrest
      | some (.value _) => cases hrest
      | some (.record r) =>
        refine ⟨r, rfl, ?_⟩
        obtain ⟨_, m₁, -, hrest⟩ := bind_eq_ok hrest
        obtain ⟨_, m₂, henter, hrest⟩ := bind_eq_ok hrest
        have hpc : m₂.inst.pc = r.returnPc := by cases henter; rfl
        rw [← hpc]
        split at hrest
        · cases hrest
          rfl
        · exact pc_of_push hrest

/-- Popping a value does not take a record away. -/
theorem record?_pop {r : ReturnRecord}
    (h : Machine.record? { m with stack := m.stack.pop } ctx = some r) :
    m.record? ctx = some r := by
  unfold Machine.record? at h ⊢
  dsimp only at h
  split at h
  · rename_i base f hframe hfunction
    split at h
    · rename_i r' hslot
      have hslot' : m.stack[ctx.base + base.toNat + f.frameSize]? = some (.record r') := by
        rw [Array.getElem?_pop] at hslot
        split at hslot
        · exact hslot
        · cases hslot
      rw [hslot']
      exact h
    · cases h
  · cases h

/-! ## Instructions that are cut off -/

theorem pushAll_spec (vs : List Int32) (ctx : Context) (m : Machine ω) :
    ∃ pushed : Array Slot, pushAll vs ctx m = .ok () { m with stack := m.stack ++ pushed } ∨
      pushAll vs ctx m = .error (.stackOverflow ctx.config.stackCapacity)
        { m with stack := m.stack ++ pushed } := by
  induction vs generalizing m with
  | nil => exact ⟨#[], .inl (by rw [Array.append_empty]; rfl)⟩
  | cons v vs ih =>
    by_cases hroom : m.stack.size < ctx.config.stackCapacity
    · obtain ⟨pushed, hrun⟩ := ih { m with stack := m.stack.push (.value v) }
      have hpush : push v ctx m = .ok () { m with stack := m.stack.push (.value v) } :=
        push_of_room (p := m.inst.pc) v hroom
      refine ⟨#[.value v] ++ pushed, ?_⟩
      rw [pushAll, bind_ok hpush, ← Array.append_assoc]
      exact hrun
    · have hpush : push v ctx m = .error (.stackOverflow ctx.config.stackCapacity) m :=
        push_of_full (p := m.inst.pc) v hroom
      exact ⟨#[], .inr (by rw [pushAll, bind_error hpush, Array.append_empty])⟩

/-- Operands that are missing stop an instruction, whatever it has pushed before. -/
theorem stopAtOperands_spec (op : Opcode) (values : Array Int32) (f : Fault) (ctx : Context)
    (m : Machine ω) : ∃ (g : Fault) (pushed : Array Slot),
      (g = f ∨ g = .stackOverflow ctx.config.stackCapacity) ∧
      stopAtOperands op values f ctx m = .error g { m with stack := m.stack ++ pushed } := by
  have hpush (vs : List Int32) : ∃ (g : Fault) (pushed : Array Slot),
      (g = f ∨ g = .stackOverflow ctx.config.stackCapacity) ∧
      (pushAll vs >>= fun _ => throw f : Exec ω Unit) ctx m =
        .error g { m with stack := m.stack ++ pushed } := by
    obtain ⟨pushed, hrun | hrun⟩ := pushAll_spec vs ctx m
    · exact ⟨f, pushed, .inl rfl, by rw [bind_ok hrun]; rfl⟩
    · exact ⟨_, pushed, .inr rfl, bind_error hrun _⟩
  cases op with
  | pushBytes count => exact hpush values.toList
  | pushByteList => exact hpush (values.toList.drop 1)
  | _ => exact ⟨f, #[], .inl rfl, by rw [Array.append_empty]; rfl⟩

theorem Same.eq_error {r : EStateM.Result Fault (Machine ω) α} {f : Fault}
    (h : Same r (.error f m)) : ∃ p, r = .error f (m.moveTo p) := by
  generalize hr : (EStateM.Result.error f m : EStateM.Result Fault (Machine ω) α) = r' at h
  cases h with
  | ok a m₁ => cases hr
  | error g m₁ p q =>
    cases hr
    exact ⟨p, rfl⟩

theorem Same.eq_ok {r : EStateM.Result Fault (Machine ω) α} {a : α}
    (h : Same (.ok a m) r) : r = .ok a m := by
  cases h
  rfl

variable [Host ω]

/-- A step where no instruction can be read faults. All it may have done is push values and note
what it executes. -/
theorem stop_at_operands {f : Fault}
    (h : Instruction.decode ctx.program.codeWidth ctx.program.image m.inst.pc = .error f) :
    ∃ (g : Fault) (p : UInt32) (pushed : Array Slot) (journal : Journal),
      (g = f ∨ g = .stackOverflow ctx.config.stackCapacity) ∧
      step ctx m =
        .error g { m.moveTo p with stack := m.stack ++ pushed, journal := journal } := by
  cases hnumber : Code.readNumber ctx.program.codeWidth ctx.program.image m.inst.pc with
  | error g =>
    have hg : g = f := by simpa [Instruction.decode, hnumber, bind, Except.bind] using h
    refine ⟨g, m.inst.pc, #[], m.journal, .inl hg, ?_⟩
    rw [step_of_error hnumber, Array.append_empty]
    rfl
  | ok r =>
    obtain ⟨raw, next⟩ := r
    have hsame := same_step ctx m
    rw [stepWhole_of_ok hnumber] at hsame
    simp only [Instruction.decode, hnumber, bind, Except.bind] at h
    dsimp only [obey] at hsame
    cases hop : Opcode.ofNumber? raw with
    | none => rw [hop] at h; cases h
    | some op =>
      rw [hop] at h hsame
      dsimp only at h hsame
      split at h
      · rename_i g hfault
        cases h
        rw [bind_ok (x := note _) rfl, executeAfter_of_fault hfault] at hsame
        obtain ⟨g, pushed, hg, hrun⟩ := stopAtOperands_spec op _ f ctx
          { m with journal := m.journal.note (.executing m.inst.number m.inst.pc op) }
        rw [hrun] at hsame
        obtain ⟨p, hstep⟩ := hsame.eq_error
        exact ⟨g, p, pushed, _, hg, hstep⟩
      · cases h

/-! ## Instructions that are executed -/

omit [Host ω] in
/-- The operands of a layout that was read whole are what a computation takes from it. -/
theorem Takes.read {x : Exec ω α} {layout : List OperandKind} {R : Array Int32 → α → Prop}
    (hx : Takes x layout R) (m : Machine ω) {next : UInt32}
    (h : (Operands.read ctx.program.codeWidth ctx.program.image layout next).fault = none) :
    ∃ a, R (Operands.read ctx.program.codeWidth ctx.program.image layout next).values a := by
  obtain ⟨vs, a, hvalues, hR, -⟩ := (hx ctx m ⟨#[], next, none⟩ rfl).2 h
  rw [Array.empty_append] at hvalues
  exact ⟨a, hvalues ▸ hR⟩

omit [Host ω] in
theorem values_two (v : Values 2) : v.toArray = #[v[0], v[1]] := by
  have h : v = #v[v[0], v[1]] := by
    ext i hi
    match i, hi with
    | 0, _ => rfl
    | 1, _ => rfl
  exact congrArg Vector.toArray h

/-- A case of a table that was read whole is among the operands. -/
theorem operands_of_search {next target : UInt32} {v : Int32} {operands : Array Int32}
    (hread : operands = (Operands.read ctx.program.codeWidth ctx.program.image
      Opcode.caseGotoSorted.layout next).values)
    (h : (Operands.read ctx.program.codeWidth ctx.program.image
      Opcode.caseGotoSorted.layout next).fault = none)
    (hsearch : searchOperands operands v 0 (operands.getD 0 0).toUInt32.toNat = some target) :
    ∃ i t, operands[2 * i + 1]? = some v ∧ operands[2 * i + 2]? = some t ∧
      target = t.toUInt32 := by
  obtain ⟨i, hi, rfl, rfl⟩ := searchOperands_spec hsearch
  have hsize : operands.size = 1 + 2 * (operands.getD 0 0).toUInt32.toNat := by
    cases htable : Code.caseTable ctx.program.image next with
    | error f =>
      have hfault : (Operands.readKind ctx.program.codeWidth ctx.program.image ⟨#[], next, none⟩
          .caseTable).fault = none := h
      simp [Operands.readKind, htable] at hfault
    | ok table =>
      obtain ⟨-, -, hcount, hsize, -⟩ :=
        Operands.read_caseTable ctx.program.codeWidth htable
      rw [hread, hcount, hsize]
  have hvalue : 1 + 2 * i < operands.size := by omega
  have htarget : 2 + 2 * i < operands.size := by omega
  refine ⟨i, operands[2 + 2 * i], ?_, ?_, ?_⟩
  · rw [Nat.add_comm (2 * i), caseValue, Array.getElem?_eq_getElem hvalue]
    simp [hvalue]
  · rw [Nat.add_comm (2 * i), Array.getElem?_eq_getElem htarget]
  · simp [caseTarget, htarget]

/-- An opcode executed on its operands, with the offset after them, goes where the instruction
leads. -/
theorem leads_executeWith {op : Opcode} {offset number next : UInt32} {operands : Array Int32}
    (hread : operands =
      (Operands.read ctx.program.codeWidth ctx.program.image op.layout next).values)
    (hfault : (Operands.read ctx.program.codeWidth ctx.program.image op.layout next).fault = none)
    (h : executeWith op operands ctx m = .ok () m') :
    Instruction.Leads ctx m ⟨offset, number, some op, operands, m.inst.pc⟩ m'.inst.pc := by
  have hkeeps : op.jumps = false → m'.inst.pc = m.inst.pc := by
    have hleft := (makes_executeWith op operands ctx m).keeps
    rw [h] at hleft
    exact hleft.pc
  cases op with
  | restart => cases h; rfl
  | goto =>
    obtain ⟨target, rfl⟩ := hread ▸ takes_word.read m hfault
    cases h
    exact ⟨target, rfl, rfl⟩
  | branch whenTrue =>
    obtain ⟨target, rfl⟩ := hread ▸ takes_word.read m hfault
    obtain ⟨v, htop, hpc⟩ := branch_eq_ok h
    exact ⟨target, v, rfl, htop, hpc⟩
  | caseGoto =>
    obtain ⟨v, rfl⟩ := hread ▸ (takes_many takes_word 2).read m hfault
    obtain ⟨w, htop, hpc⟩ := caseGoto_eq_ok h
    refine ⟨v[0], v[1], w, values_two v, htop, ?_⟩
    simpa using hpc
  | caseGotoSorted =>
    obtain ⟨v, htop, hpc | hsearch⟩ := caseGotoFrom_eq_ok h
    · exact ⟨v, htop, .inl hpc⟩
    · exact ⟨v, htop, .inr (operands_of_search hread hfault hsearch)⟩
  | call discard =>
    obtain ⟨index, rfl⟩ := hread ▸ takes_index.read m hfault
    obtain ⟨f, hf, hpc⟩ := call_eq_ok h
    exact ⟨index.toInt32, f, rfl, hf, hpc⟩
  | returnVoid => exact ret_eq_ok h
  | returnVal =>
    obtain ⟨v, m₁, hpop, hret⟩ := bind_eq_ok h
    obtain ⟨-, rfl⟩ := pop_eq_ok hpop
    obtain ⟨r, hrecord, hpc⟩ := ret_eq_ok hret
    exact ⟨r, record?_pop hrecord, hpc⟩
  | _ => exact hkeeps rfl

/-- A step that succeeds executes the instruction that the decoder reads. -/
theorem decode_of_step (h : step ctx m = .ok () m') :
    ∃ inst, Instruction.decode ctx.program.codeWidth ctx.program.image m.inst.pc = .ok inst ∧
      inst.Leads ctx m m'.inst.pc := by
  have hsame := same_step ctx m
  rw [h] at hsame
  have hwhole := hsame.eq_ok
  cases hnumber : Code.readNumber ctx.program.codeWidth ctx.program.image m.inst.pc with
  | error f => rw [stepWhole_of_error hnumber] at hwhole; cases hwhole
  | ok r =>
    obtain ⟨raw, next⟩ := r
    rw [stepWhole_of_ok hnumber] at hwhole
    dsimp only [obey] at hwhole
    simp only [Instruction.decode, hnumber, bind, Except.bind]
    cases hop : Opcode.ofNumber? raw with
    | none =>
      rw [hop] at hwhole
      cases hwhole
      exact ⟨_, rfl, rfl⟩
    | some op =>
      rw [hop] at hwhole
      dsimp only at hwhole ⊢
      rw [bind_ok (x := note _) rfl] at hwhole
      cases hfault :
        (Operands.read ctx.program.codeWidth ctx.program.image op.layout next).fault with
      | some f =>
        rw [executeAfter_of_fault hfault] at hwhole
        obtain ⟨g, pushed, -, hrun⟩ := stopAtOperands_spec op (Operands.read
          ctx.program.codeWidth ctx.program.image op.layout next).values f ctx
          { m with journal := m.journal.note (.executing m.inst.number m.inst.pc op) }
        rw [hrun] at hwhole
        cases hwhole
      | none =>
        rw [executeAfter_of_whole hfault] at hwhole
        exact ⟨_, rfl, leads_executeWith rfl hfault hwhole⟩

/-- **The decoder and the interpreter agree on every instruction.** Where no instruction can be
decoded, a step faults; the host with its record of calls, the requests, the session, the memory
and the variables are then as before, on the stack too. A step that succeeds executes an
instruction that the decoder reads, and goes where that instruction leads. -/
theorem step_follows_decoder {ω : Type} [Host ω] {ctx : Context}
    (hsize : ctx.program.image.size < 2 ^ 31) (m : Machine (Recorded ω)) :
    (∀ f, Instruction.decode ctx.program.codeWidth ctx.program.image m.inst.pc = .error f →
      ∃ (g : Fault) (p : UInt32) (pushed : Array Slot) (journal : Journal), step ctx m =
        .error g { m.moveTo p with stack := m.stack ++ pushed, journal := journal }) ∧
    ∀ m', step ctx m = .ok () m' → ∃ inst,
      Instruction.decode ctx.program.codeWidth ctx.program.image m.inst.pc = .ok inst ∧
        m.inst.pc < inst.next ∧ inst.next.toNat ≤ ctx.program.image.size ∧
        inst.Leads ctx m m'.inst.pc := by
  constructor
  · intro f hf
    obtain ⟨g, p, pushed, journal, -, hstep⟩ := stop_at_operands hf
    exact ⟨g, p, pushed, journal, hstep⟩
  · intro m' hstep
    obtain ⟨inst, hinst, hleads⟩ := decode_of_step hstep
    have hahead := Instruction.ahead_decode hsize hinst
    exact ⟨inst, hinst, UInt32.lt_iff_toNat_lt.mpr hahead.lt, hahead.le, hleads⟩

end Exec

namespace CutOff

/-- A table with the one case 7, which jumps behind it; there a byte is to be pushed that is
missing. -/
def program : Program :=
  { (default : Program) with
    image := #[240, 16, 0, 0, 1, 0, 0, 0, 7, 0, 0, 0, 16, 0, 0, 0, 167]
    layout := .enhanced .compact }

def context : Context := ⟨program, .standard, 0⟩

/-- A machine at an offset, with the value 7 on its stack. -/
def machine (pc : UInt32) : Machine (Recorded StillWorld) :=
  ⟨{ (default : Instance) with pc := pc }, #[.value 7], default, .empty, ⟨default, []⟩, #[],
    default⟩

/-- The offset that a step leads to, if it succeeds. -/
def offset? : EStateM.Result Fault (Machine (Recorded StillWorld)) Unit → Option UInt32
  | .ok _ m => some m.inst.pc
  | .error _ _ => none

theorem eq_ok_of_offset? {r : EStateM.Result Fault (Machine (Recorded StillWorld)) Unit}
    {pc : UInt32} (h : offset? r = some pc) : ∃ m', r = .ok () m' ∧ m'.inst.pc = pc := by
  cases r with
  | ok _ m' => exact ⟨m', rfl, Option.some.inj h⟩
  | error _ _ => cases h

theorem eq_error_of_toOption {r : Except Fault Instruction} (h : r.toOption = none) :
    ∃ f, r = .error f := by
  cases r with
  | ok _ => cases h
  | error f => exact ⟨f, rfl⟩

/-- The case is taken, and the instruction behind it stops. -/
theorem step_follows_decoder_cut_off :
    context.program.image.size < 2 ^ 31 ∧
    (∃ m' inst, Exec.step context (machine 0) = .ok () m' ∧
      Instruction.decode context.program.codeWidth context.program.image 0 = .ok inst ∧
      inst.Leads context (machine 0) m'.inst.pc ∧ m'.inst.pc = 16) ∧
    ∃ f g p pushed journal,
      Instruction.decode context.program.codeWidth context.program.image 16 = .error f ∧
      Exec.step context (machine 16) = .error g
        { (machine 16).moveTo p with
          stack := (machine 16).stack ++ pushed, journal := journal } := by
  have hsize : context.program.image.size < 2 ^ 31 := by decide
  refine ⟨hsize, ?_, ?_⟩
  · have hoffset : offset? (Exec.step context (machine 0)) = some 16 := by decide +kernel
    obtain ⟨m', hstep, hpc⟩ := eq_ok_of_offset? hoffset
    obtain ⟨inst, hinst, -, -, hleads⟩ :=
      (Exec.step_follows_decoder hsize (machine 0)).2 m' hstep
    exact ⟨m', inst, hstep, hinst, hleads, hpc⟩
  · have hcut : (Instruction.decode context.program.codeWidth context.program.image 16).toOption =
        none := by decide +kernel
    obtain ⟨f, hdecode⟩ := eq_error_of_toOption hcut
    obtain ⟨g, p, pushed, journal, hstep⟩ :=
      (Exec.step_follows_decoder hsize (machine 16)).1 f hdecode
    exact ⟨f, g, p, pushed, journal, hdecode, hstep⟩

end CutOff

end LevelScript
