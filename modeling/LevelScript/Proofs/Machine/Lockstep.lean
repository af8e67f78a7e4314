import LevelScript.Proofs.Machine.Tandem

/-!
# Instructions in tandem

Every instruction does alike on machines that are alike. Operands may differ where they are
offsets: `OperandsAlike` says where.

* `tandem_execute`: every opcode, given operands that are alike.
* `alike_run`: a whole turn, given the same instructions at corresponding offsets.
-/

namespace LevelScript.Coupling

variable {ω₁ ω₂ : Type} {c : Coupling ω₁ ω₂}

/-! ## Parts that meet no fault -/

theorem tandem_observe {α : Type} {f : Machine ω₁ → α} {g : Machine ω₂ → α}
    (h : ∀ m₁ m₂, c.Alike m₁ m₂ → f m₁ = g m₂) :
    c.Tandem (fun _ m => .ok (f m) m) (fun _ m => .ok (g m) m) Eq :=
  fun m₁ m₂ hm => .ok (h m₁ m₂ hm) hm

theorem tandem_writeLocal (i : Nat) (v : Int32) :
    c.Tandem (Exec.writeLocal i v) (Exec.writeLocal i v) Eq := by
  intro m₁ m₂ hm
  refine .ok ?_ (hm.mild (f := fun k => { k with locals := k.locals.setIfInBounds i v })
    ⟨fun _ _ _ _ => rfl, fun _ => rfl⟩ fun _ _ h => h)
  rw [hm.inst.keeps Instance.locals fun _ _ _ _ => rfl]

theorem tandem_loadElement (scope : ArrayScope) (slot : UInt32) (element : Int32) :
    c.Tandem (Exec.loadElement scope slot element) (Exec.loadElement scope slot element) Eq := by
  cases scope with
  | map => exact tandem_observe fun m₁ m₂ hm => by rw [hm.memory]
  | world => exact tandem_observe fun m₁ m₂ hm => by rw [hm.session]
  | global => exact tandem_observe fun m₁ m₂ hm => by rw [hm.session]

theorem tandem_storeElement (scope : ArrayScope) (slot : UInt32) (element v : Int32) :
    c.Tandem (Exec.storeElement scope slot element v) (Exec.storeElement scope slot element v)
      Eq := by
  cases scope with
  | map =>
    intro m₁ m₂ hm
    refine .ok rfl ?_
    rw [← hm.memory]
    cases m₁.memory.var? slot.toNat with
    | none => exact hm
    | some array => exact { hm with memory := by rw [hm.memory] }
  | world => exact fun m₁ m₂ hm => .ok rfl { hm with session := by rw [hm.session] }
  | global => exact fun m₁ m₂ hm => .ok rfl { hm with session := by rw [hm.session] }

/-- Goes to corresponding offsets with a frame. -/
theorem tandem_enter {p q : UInt32} (h : c.pcs p q) (frame : Frame) (function : Option UInt32) :
    c.Tandem
      (Exec.modifyInst ({ · with frame := frame, function := function, pc := p }))
      (Exec.modifyInst ({ · with frame := frame, function := function, pc := q })) Eq := by
  intro m₁ m₂ hm
  have hmild : Instance.Mild ({ · with frame := frame, function := function }) :=
    ⟨fun _ _ _ _ => rfl, fun _ => rfl⟩
  exact .ok rfl ((hm.mild hmild fun _ _ h => h).moved h)

theorem tandem_append (text : String) : c.Tandem (Exec.append text) (Exec.append text) Eq :=
  fun _ _ hm => .ok rfl (hm.mild (f := fun k => { k with print := k.print ++ text })
    ⟨fun _ _ _ _ => rfl, fun _ => rfl⟩ fun _ _ h => h)

theorem tandem_takePrint : c.Tandem Exec.takePrint Exec.takePrint Eq := by
  intro m₁ m₂ hm
  refine .ok ?_ (hm.mild (f := fun k => { k with print := "" })
    ⟨fun _ _ _ _ => rfl, fun _ => rfl⟩ fun _ _ h => h)
  rw [hm.inst.keeps Instance.print fun _ _ _ _ => rfl]

/-! ## Operands -/

/-- Operands that differ only where they are offsets. -/
def OperandsAlike (P : UInt32 → UInt32 → Prop) (op : Opcode) (a b : Array Int32) : Prop :=
  match op with
  | .goto | .branch _ => P (a.getD 0 0).toUInt32 (b.getD 0 0).toUInt32
  | .caseGoto => a.getD 0 0 = b.getD 0 0 ∧ P (a.getD 1 0).toUInt32 (b.getD 1 0).toUInt32
  | .caseGotoSorted => a.getD 0 0 = b.getD 0 0 ∧ ∀ i < (a.getD 0 0).toUInt32.toNat,
      Exec.caseValue a i = Exec.caseValue b i ∧ P (Exec.caseTarget a i) (Exec.caseTarget b i)
  | _ => a = b

/-- Two searches in tables with the same values end at the same case. -/
theorem searchOperands_alike {P : UInt32 → UInt32 → Prop} {a b : Array Int32} (v : Int32)
    {low high : Nat} (h : ∀ i < high,
      Exec.caseValue a i = Exec.caseValue b i ∧ P (Exec.caseTarget a i) (Exec.caseTarget b i)) :
    Option.Rel P (Exec.searchOperands a v low high) (Exec.searchOperands b v low high) := by
  fun_induction Exec.searchOperands a v low high with
  | case1 low high hlt middle key hkey =>
    have hm : middle < high := by omega
    rw [Exec.searchOperands, if_pos hlt]
    dsimp only
    rw [if_pos ((h middle hm).1 ▸ hkey)]
    exact .some (h middle hm).2
  | case2 low high hlt middle key hkey hless ih =>
    have hm : middle < high := by omega
    rw [Exec.searchOperands.eq_1 b, if_pos hlt]
    dsimp only
    rw [if_neg ((h middle hm).1 ▸ hkey), if_pos ((h middle hm).1 ▸ hless)]
    exact ih h
  | case3 low high hlt middle key hkey hless ih =>
    have hm : middle < high := by omega
    rw [Exec.searchOperands.eq_1 b, if_pos hlt]
    dsimp only
    rw [if_neg ((h middle hm).1 ▸ hkey), if_neg ((h middle hm).1 ▸ hless)]
    exact ih fun i hi => h i (by omega)
  | case4 low high hlt =>
    rw [Exec.searchOperands, if_neg hlt]
    exact .none

/-! ## Variables and arrays -/

variable [Host ω₁] [Host ω₂] (hc : c.Fair)

include hc

theorem tandem_currentFunction :
    c.Tandem Exec.currentFunction Exec.currentFunction (Option.Rel (Function.Alike c.pcs)) := by
  intro m₁ m₂ hm
  refine .ok ?_ hm
  rw [hm.inst.keeps Instance.function fun _ _ _ _ => rfl]
  cases m₁.inst.function with
  | none => exact .none
  | some index => exact hc.functions index

/-- Slots at the same distance from the instance's first one. -/
def SlotsAlike (c : Coupling ω₁ ω₂) (a b : Option Nat) : Prop :=
  a = none ∧ b = none ∨ ∃ k, a = some (c.left.base + k) ∧ b = some (c.right.base + k)

theorem tandem_frameSlot (base index : UInt32) :
    c.Tandem (Exec.frameSlot base index) (Exec.frameSlot base index) c.SlotsAlike := by
  refine tandem_read_bind (tandem_bind (tandem_currentFunction hc) fun f g hfg => ?_)
  cases hfg with
  | none => exact tandem_throw (hc.faults _ _ (.badFrame 0))
  | some h =>
    dsimp only
    rw [h.frameSize]
    split
    · refine tandem_pure ?_
      exact .inr ⟨_, by rw [Nat.add_assoc], by rw [Nat.add_assoc]⟩
    · refine tandem_pure ?_
      exact .inl ⟨rfl, rfl⟩

theorem tandem_readVar (scope : Scope) (index : UInt32) :
    c.Tandem (Exec.readVar scope index) (Exec.readVar scope index) Eq := by
  cases scope with
  | script =>
    refine tandem_getInst_bind fun i pc entry segment _ => ?_
    dsimp only [Instance.relocate]
    cases i.frame with
    | script => exact tandem_pure rfl
    | stack base =>
      refine tandem_bind (tandem_frameSlot hc base index) fun a b hab => ?_
      rcases hab with ⟨rfl, rfl⟩ | ⟨k, rfl, rfl⟩
      · exact tandem_pure rfl
      · exact tandem_bind_eq (tandem_valueAt hc k) fun v => tandem_pure rfl
  | map => exact tandem_observe fun m₁ m₂ hm => by rw [hm.memory]
  | world => exact tandem_observe fun m₁ m₂ hm => by rw [hm.session]
  | global => exact tandem_observe fun m₁ m₂ hm => by rw [hm.session]

theorem tandem_writeVar (scope : Scope) (index : UInt32) (v : Int32) :
    c.Tandem (Exec.writeVar scope index v) (Exec.writeVar scope index v) Eq := by
  cases scope with
  | script =>
    refine tandem_getInst_bind fun i pc entry segment _ => ?_
    dsimp only [Instance.relocate]
    cases i.frame with
    | script => exact tandem_writeLocal _ _
    | stack base =>
      refine tandem_bind (tandem_frameSlot hc base index) fun a b hab => ?_
      rcases hab with ⟨rfl, rfl⟩ | ⟨k, rfl, rfl⟩
      · exact tandem_pure rfl
      · exact tandem_bind_eq (tandem_setValueAt hc k v) fun _ => tandem_pure rfl
  | map => exact fun m₁ m₂ hm => .ok rfl { hm with memory := by rw [hm.memory] }
  | world => exact fun m₁ m₂ hm => .ok rfl { hm with session := by rw [hm.session] }
  | global => exact fun m₁ m₂ hm => .ok rfl { hm with session := by rw [hm.session] }

/-! ## Calls -/

theorem tandem_pushZeros (n : Nat) :
    c.Tandem (Exec.pushZeros n) (Exec.pushZeros n) Eq := by
  induction n with
  | zero => exact tandem_pure rfl
  | succ n ih => exact tandem_bind_eq (tandem_push hc 0) fun _ => ih

theorem tandem_call (index : UInt32) (discard : Bool) :
    c.Tandem (Exec.call index discard) (Exec.call index discard) Eq := by
  refine tandem_read_bind ?_
  have hfunction := hc.functions index
  generalize c.left.program.function? index = a at hfunction ⊢
  generalize c.right.program.function? index = b at hfunction ⊢
  cases hfunction with
  | none => exact tandem_throw (hc.faults _ _ (.outOfRange index))
  | @some f g hfg =>
    dsimp only
    rw [hfg.isImported, hfg.argCount, hfg.frameSize]
    split
    · exact tandem_throw_bind (hc.faults _ _ (.unresolved index))
    · rename_i himport
      refine tandem_bind_eq (tandem_depth hc) fun depth => ?_
      split
      · exact tandem_throw_bind (hc.faults _ _ .underflow)
      · -- Both have room for the frame, or both have not, or only the left one has not.
        have hroom := hc.room
        by_cases hl : c.left.config.stackCapacity <
            c.left.base + depth + (g.frameSize - g.argCount.toNat) + 1
        · rw [if_pos hl]
          by_cases hs : c.slack
          · exact fun _ _ _ => .overflow hs
          · have htight := hc.tight hs
            rw [if_pos (by omega)]
            exact tandem_throw_bind (hc.faults _ _ (.overflow hs))
        · rw [if_neg hl, if_neg (by omega)]
          refine tandem_bind_eq (tandem_pushZeros hc _) fun _ => ?_
          refine tandem_getInst_bind fun i pc entry segment hpc => ?_
          refine tandem_bind_eq (tandem_pushSlot hc (.record hpc rfl)) fun _ => ?_
          exact tandem_enter (hfg.entry (by rw [hfg.isImported]; simpa using himport)) _ _

/-- The record that a return finds. -/
theorem tandem_ret (v : Int32) : c.Tandem (Exec.ret v) (Exec.ret v) Eq := by
  refine tandem_read_bind (tandem_getInst_bind fun i pc entry segment _ => ?_)
  dsimp only [Instance.relocate]
  cases i.frame with
  | script => exact tandem_throw (hc.faults _ _ .outside)
  | stack base =>
    refine tandem_bind (tandem_currentFunction hc) fun f g hfg => ?_
    cases hfg with
    | none => exact tandem_throw (hc.faults _ _ .outside)
    | @some f g hfg =>
      dsimp only
      rw [hfg.frameSize, Nat.add_assoc, Nat.add_assoc]
      refine tandem_get_bind fun m₁ m₂ hm => ?_
      obtain ⟨xs, ys, ho⟩ := hm.own hc
      obtain ⟨h₁, h₂⟩ := ho.getElem? hc (base.toNat + g.frameSize)
      have hk := rel_getElem? ho.alike (base.toNat + g.frameSize)
      rw [h₁, h₂]
      generalize xs[base.toNat + g.frameSize]? = a at hk ⊢
      generalize ys[base.toNat + g.frameSize]? = b at hk ⊢
      have hfault := hc.badFrame (k := base.toNat + g.frameSize) rfl rfl
      cases hk with
      | none => exact .error hfault hm
      | some hxy =>
        cases hxy with
        | value v => exact .error hfault hm
        | @record r r' pc same =>
          revert hm
          rw [same]
          refine tandem_bind_eq (tandem_truncate hc _) (fun _ => ?_) m₁ m₂
          refine tandem_bind_eq (tandem_enter pc r.callerFrame r.callerFunction) fun _ => ?_
          dsimp only
          split
          · exact tandem_pure rfl
          · exact tandem_push hc v

/-! ## Printing -/

theorem tandem_valuesFrom (k count : Nat) :
    c.Tandem (Exec.valuesFrom (c.left.base + k) count) (Exec.valuesFrom (c.right.base + k) count)
      Eq := by
  induction count generalizing k with
  | zero => exact tandem_pure rfl
  | succ count ih =>
    refine tandem_bind_eq (tandem_valueAt hc k) fun v => ?_
    refine tandem_bind_eq ?_ fun rest => tandem_pure rfl
    rw [Nat.add_assoc, Nat.add_assoc]
    exact ih (k + 1)

theorem tandem_pushTextLength :
    c.Tandem Exec.pushTextLength Exec.pushTextLength Eq := by
  refine tandem_read_bind (tandem_bind_eq (tandem_pop hc) fun index => ?_)
  rw [hc.text]
  split <;> exact tandem_push hc _

/-- Of an instruction that does not jump, every part does alike. -/
theorem tandem_parts :
    Exec.Parts fun (α : Type) (x : Exec ω₁ α) (y : Exec ω₂ α) => c.Tandem x y Eq where
  pure _ := tandem_pure rfl
  bind := tandem_bind_eq
  inst h := tandem_getInst_bind fun i pc entry segment _ => h i pc entry segment
  setStatus := tandem_setStatus
  setResult _ := tandem_modifyInst ⟨fun _ _ _ _ => rfl, fun _ => rfl⟩ fun _ _ h => h
  clearPrint := tandem_modifyInst ⟨fun _ _ _ _ => rfl, fun _ => rfl⟩ fun _ _ h => h
  setHudMark _ := tandem_modifyInst ⟨fun _ _ _ _ => rfl, fun _ => rfl⟩ fun _ _ h => h
  append := tandem_append
  takePrint := tandem_takePrint
  raise := tandem_raise
  outOfRange n scope index := tandem_note hc (.variableOutOfRange n scope index)
  push := tandem_push hc
  pop := tandem_pop hc
  peek := tandem_peek hc
  depth := tandem_depth hc
  readVar := tandem_readVar hc
  writeVar := tandem_writeVar hc
  loadElement := tandem_loadElement
  storeElement := tandem_storeElement
  text := tandem_text hc
  pushTextLength := tandem_pushTextLength hc
  ask _ := tandem_ask hc _
  perform := tandem_perform hc

theorem tandem_endHudMessage (bold : Bool) :
    c.Tandem (Exec.endHudMessage bold) (Exec.endHudMessage bold) Eq := by
  refine tandem_read_bind (tandem_bind_eq (tandem_depth hc) fun depth => ?_)
  refine tandem_getInst_bind fun i pc entry segment _ => ?_
  dsimp only [Instance.relocate]
  refine tandem_bind_eq (tandem_modifyInst ⟨fun _ _ _ _ => rfl, fun _ => rfl⟩ fun _ _ h => h) ?_
  intro _
  split
  · exact tandem_throw_bind (hc.faults _ _ .underflow)
  · refine tandem_bind_eq (tandem_valuesFrom hc _ _) fun extra => ?_
    refine tandem_bind_eq (tandem_truncate hc _) fun _ => ?_
    refine tandem_bind_eq ((tandem_parts hc).popMany 6) fun v => ?_
    refine tandem_bind_eq ((tandem_parts hc).printTarget bold) fun target => ?_
    exact tandem_bind_eq tandem_takePrint fun text => (tandem_parts hc).act _

/-! ## Jumps -/

theorem tandem_caseGoto (value : Int32) {p q : UInt32} (h : c.pcs p q) :
    c.Tandem (Exec.caseGoto value p) (Exec.caseGoto value q) Eq := by
  refine tandem_bind_eq (tandem_peek hc) fun v => ?_
  split
  · exact tandem_bind_eq (tandem_pop hc) fun _ => tandem_jump h
  · exact tandem_pure rfl

theorem tandem_caseGotoFrom {a b : Array Int32} (h : OperandsAlike c.pcs .caseGotoSorted a b) :
    c.Tandem (Exec.caseGotoFrom a) (Exec.caseGotoFrom b) Eq := by
  refine tandem_bind_eq (tandem_peek hc) fun v => ?_
  have hsearch : Option.Rel c.pcs (Exec.searchOperands a v 0 (a.getD 0 0).toUInt32.toNat)
      (Exec.searchOperands b v 0 (a.getD 0 0).toUInt32.toNat) := searchOperands_alike v h.2
  rw [← h.1]
  generalize Exec.searchOperands a v 0 (a.getD 0 0).toUInt32.toNat = x at hsearch ⊢
  generalize Exec.searchOperands b v 0 (a.getD 0 0).toUInt32.toNat = y at hsearch ⊢
  cases hsearch with
  | none => exact tandem_pure rfl
  | some hpc => exact tandem_bind_eq (tandem_pop hc) fun _ => tandem_jump hpc

theorem tandem_branch (whenTrue : Bool) {p q : UInt32} (h : c.pcs p q) :
    c.Tandem (Exec.branch whenTrue p) (Exec.branch whenTrue q) Eq := by
  refine tandem_bind_eq (tandem_pop hc) fun v => ?_
  split
  · exact tandem_jump h
  · exact tandem_pure rfl

theorem tandem_restart : c.Tandem Exec.restart Exec.restart Eq := by
  refine tandem_bind_eq (tandem_truncate hc 0) fun _ => ?_
  exact fun m₁ m₂ hm => tandem_enter hm.inst.entry .script none m₁ m₂ hm

/-! ## All opcodes -/

theorem tandem_execute (op : Opcode) {a b : Array Int32} (h : OperandsAlike c.pcs op a b) :
    c.Tandem (Exec.executeWith op a) (Exec.executeWith op b) Eq := by
  cases op with
  | goto => exact tandem_jump h
  | branch whenTrue => exact tandem_branch hc whenTrue h
  | caseGoto =>
    show c.Tandem (Exec.caseGoto (a.getD 0 0) _) (Exec.caseGoto (b.getD 0 0) _) Eq
    rw [h.1]
    exact tandem_caseGoto hc _ h.2
  | caseGotoSorted => exact tandem_caseGotoFrom hc h
  | restart => exact tandem_restart hc
  | call discard =>
    obtain rfl : a = b := h
    exact tandem_call hc _ discard
  | returnVoid => exact tandem_ret hc 0
  | returnVal => exact tandem_bind_eq (tandem_pop hc) fun v => tandem_ret hc v
  | _ =>
    obtain rfl : a = b := h
    exact (tandem_parts hc).executeWith (tandem_endHudMessage hc) rfl a

/-! ## Steps -/

/-- What stands in the code of the left and of the right program. -/
abbrev leftNumber (c : Coupling ω₁ ω₂) (p : UInt32) : Except Fault (UInt32 × UInt32) :=
  Code.readNumber c.left.program.codeWidth c.left.program.image p

abbrev rightNumber (c : Coupling ω₁ ω₂) (q : UInt32) : Except Fault (UInt32 × UInt32) :=
  Code.readNumber c.right.program.codeWidth c.right.program.image q

abbrev leftOperands (c : Coupling ω₁ ω₂) (op : Opcode) (p : UInt32) : Operands :=
  Operands.read c.left.program.codeWidth c.left.program.image op.layout p

abbrev rightOperands (c : Coupling ω₁ ω₂) (op : Opcode) (q : UInt32) : Operands :=
  Operands.read c.right.program.codeWidth c.right.program.image op.layout q

/-- The same instruction stands at two offsets, or both codes end in the same way there. -/
inductive SameInstruction (c : Coupling ω₁ ω₂) (p q : UInt32) : Prop
  | missing {f g : Fault} (left : c.leftNumber p = .error f) (right : c.rightNumber q = .error g)
      (fault : c.faults f g)
  | unknown {raw p' q' : UInt32} (left : c.leftNumber p = .ok (raw, p'))
      (right : c.rightNumber q = .ok (raw, q')) (opcode : Opcode.ofNumber? raw = none)
      (next : c.pcs p' q')
  | cut {raw p' q' : UInt32} {op : Opcode} {f g : Fault} (left : c.leftNumber p = .ok (raw, p'))
      (right : c.rightNumber q = .ok (raw, q')) (opcode : Opcode.ofNumber? raw = some op)
      (leftFault : (c.leftOperands op p').fault = some f)
      (rightFault : (c.rightOperands op q').fault = some g)
      (fault : c.faults f g)
      (values : (c.leftOperands op p').values = (c.rightOperands op q').values)
  | whole {raw p' q' : UInt32} {op : Opcode} (left : c.leftNumber p = .ok (raw, p'))
      (right : c.rightNumber q = .ok (raw, q')) (opcode : Opcode.ofNumber? raw = some op)
      (leftFault : (c.leftOperands op p').fault = none)
      (rightFault : (c.rightOperands op q').fault = none)
      (next : c.pcs (c.leftOperands op p').next (c.rightOperands op q').next)
      (values : OperandsAlike c.pcs op (c.leftOperands op p').values
        (c.rightOperands op q').values)

theorem tandem_stopAtOperands (op : Opcode) (values : Array Int32) {f g : Fault}
    (h : c.faults f g) :
    c.Tandem (Exec.stopAtOperands op values f) (Exec.stopAtOperands op values g) Eq := by
  unfold Exec.stopAtOperands
  split
  · exact tandem_bind_eq ((tandem_parts hc).pushAll _) fun _ => tandem_throw h
  · exact tandem_bind_eq ((tandem_parts hc).pushAll _) fun _ => tandem_throw h
  · exact tandem_throw h

section Obey

variable {raw p q p' q' : UInt32} (hpc : c.pcs p q) (n : Int32)

include hpc

theorem tandem_obey_unknown (hop : Opcode.ofNumber? raw = none)
    (h : c.pcs p' q') : c.Tandem (Exec.obey n p raw p') (Exec.obey n q raw q') Eq := by
  unfold Exec.obey
  rw [hop]
  exact tandem_bind_eq (tandem_note hc (.unknownOpcode n raw hpc)) fun _ => tandem_jump h

theorem tandem_obey_cut {op : Opcode} {f g : Fault} (hop : Opcode.ofNumber? raw = some op)
    (hf : (c.leftOperands op p').fault = some f) (hg : (c.rightOperands op q').fault = some g)
    (hfault : c.faults f g)
    (hv : (c.leftOperands op p').values = (c.rightOperands op q').values) :
    c.Tandem (Exec.obey n p raw p') (Exec.obey n q raw q') Eq := by
  unfold Exec.obey
  rw [hop]
  refine tandem_bind_eq (tandem_note hc (.executing n op hpc)) fun _ m₁ m₂ hm => ?_
  rw [Exec.executeAfter_of_fault hf, Exec.executeAfter_of_fault hg, hv]
  exact tandem_stopAtOperands hc op _ hfault m₁ m₂ hm

theorem tandem_obey_whole {op : Opcode} (hop : Opcode.ofNumber? raw = some op)
    (hf : (c.leftOperands op p').fault = none) (hg : (c.rightOperands op q').fault = none)
    (hnext : c.pcs (c.leftOperands op p').next (c.rightOperands op q').next)
    (hv : OperandsAlike c.pcs op (c.leftOperands op p').values (c.rightOperands op q').values) :
    c.Tandem (Exec.obey n p raw p') (Exec.obey n q raw q') Eq := by
  unfold Exec.obey
  rw [hop]
  refine tandem_bind_eq (tandem_note hc (.executing n op hpc)) fun _ m₁ m₂ hm => ?_
  rw [Exec.executeAfter_of_whole hf, Exec.executeAfter_of_whole hg]
  exact tandem_execute hc op hv _ _ (hm.moved hnext)

end Obey

theorem agree_step {m₁ : Machine ω₁} {m₂ : Machine ω₂} (hm : c.Alike m₁ m₂)
    (h : c.SameInstruction m₁.inst.pc m₂.inst.pc) :
    c.Agree Eq (Exec.stepWhole c.left m₁) (Exec.stepWhole c.right m₂) := by
  have hnumber : m₂.inst.number = m₁.inst.number :=
    hm.inst.keeps Instance.number fun _ _ _ _ => rfl
  cases h with
  | missing left right fault =>
    rw [Exec.stepWhole_of_error left, Exec.stepWhole_of_error right]
    exact .error fault hm
  | unknown left right opcode next =>
    rw [Exec.stepWhole_of_ok left, Exec.stepWhole_of_ok right, hnumber]
    exact tandem_obey_unknown hc hm.inst.pc _ opcode next m₁ m₂ hm
  | cut left right opcode leftFault rightFault fault values =>
    rw [Exec.stepWhole_of_ok left, Exec.stepWhole_of_ok right, hnumber]
    exact tandem_obey_cut hc hm.inst.pc _ opcode leftFault rightFault fault values m₁ m₂ hm
  | whole left right opcode leftFault rightFault next values =>
    rw [Exec.stepWhole_of_ok left, Exec.stepWhole_of_ok right, hnumber]
    exact tandem_obey_whole hc hm.inst.pc _ opcode leftFault rightFault next values m₁ m₂ hm

end LevelScript.Coupling
