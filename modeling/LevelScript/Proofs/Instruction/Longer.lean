import Mathlib.Data.List.Infix
import LevelScript.Proofs.Image.Bytes
import LevelScript.Proofs.Instruction.Reading

/-!
# Reading in a longer image

What can be read in an image is read as well in every image that starts with it. So an
instruction depends on the bytes up to its end only.

* `Operands.readFrom_mono`: operands in a longer image.
* `Instruction.decode_mono`: instructions in a longer image.
-/

namespace LevelScript

/-! ## Bytes -/

namespace Image

variable {image whole : Image}

theorem Stands.mono (hwhole : image.toList <+: whole.toList) {place : Nat} {xs : List UInt8}
    (h : image.Stands place xs) : whole.Stands place xs :=
  h.trans (hwhole.drop place)

theorem size_le_mono (hwhole : image.toList <+: whole.toList) : image.size ≤ whole.size := by
  simpa using hwhole.length_le

end Image

/-! ## Numbers -/

namespace Code

variable {image whole : Image} (hwhole : image.toList <+: whole.toList)

include hwhole

theorem readWord_mono {pc : UInt32} {r : UInt32 × UInt32} (h : readWord image pc = .ok r) :
    readWord whole pc = .ok r := by
  unfold readWord at h ⊢
  cases hword : image.word? pc.toNat with
  | none => simp [hword] at h
  | some w =>
    rw [Image.word?_of_stands ((Image.word?_eq_some_iff.mp hword).mono hwhole)]
    rw [hword] at h
    exact h

theorem readRaw_mono {pc : UInt32} {r : UInt8 × UInt32} (h : readRaw image pc = .ok r) :
    readRaw whole pc = .ok r := by
  unfold readRaw at h ⊢
  cases hbyte : image[pc.toNat]? with
  | none => simp [hbyte] at h
  | some b =>
    have hstands : image.Stands pc.toNat [b] := by
      rw [← Array.getElem?_toList] at hbyte
      obtain ⟨hlt, rfl⟩ := List.getElem?_eq_some_iff.mp hbyte
      exact ⟨_, (List.drop_eq_getElem_cons hlt).symm⟩
    have hbyte' : whole[pc.toNat]? = some b := (hstands.mono hwhole).getElem? (i := 0) (by simp)
    rw [hbyte']
    rw [hbyte] at h
    exact h

theorem rawAsWord_mono {pc : UInt32} {r : UInt32 × UInt32}
    (h : Operands.rawAsWord image pc = .ok r) : Operands.rawAsWord whole pc = .ok r := by
  unfold Operands.rawAsWord at h ⊢
  cases hraw : readRaw image pc with
  | error f => simp [hraw, Except.map] at h
  | ok b =>
    rw [readRaw_mono hwhole hraw, ← hraw]
    exact h

theorem readIndex_mono {width : CodeWidth} {pc : UInt32} {r : UInt32 × UInt32}
    (h : readIndex width image pc = .ok r) : readIndex width whole pc = .ok r := by
  cases width with
  | wide => exact readWord_mono hwhole h
  | compact => exact rawAsWord_mono hwhole h

theorem readNumber_mono {width : CodeWidth} {pc : UInt32} {r : UInt32 × UInt32}
    (h : readNumber width image pc = .ok r) : readNumber width whole pc = .ok r := by
  cases width with
  | wide => exact readWord_mono hwhole h
  | compact =>
    unfold readNumber at h ⊢
    cases hfirst : readRaw image pc with
    | error f => simp [hfirst, bind, Except.bind] at h
    | ok r₀ =>
      simp only [hfirst, readRaw_mono hwhole hfirst, bind, Except.bind] at h ⊢
      split at h
      · rename_i hlow
        rw [if_pos hlow]
        exact h
      · rename_i hhigh
        rw [if_neg hhigh]
        cases hsecond : readRaw image r₀.2 with
        | error f => simp [hsecond] at h
        | ok r₁ =>
          simp only [hsecond, readRaw_mono hwhole hsecond] at h ⊢
          exact h

theorem caseTable_mono {pc : UInt32} {r : UInt32 × UInt32} (h : caseTable image pc = .ok r) :
    caseTable whole pc = .ok r := by
  obtain ⟨base, count⟩ := r
  obtain ⟨rfl, hword, hroom⟩ := caseTable_spec h
  have hsize := Image.size_le_mono hwhole
  simp only [caseTable, bind, Except.bind, readWord_mono hwhole hword]
  rw [if_neg (by omega)]
  rfl

end Code

/-! ## Operands -/

namespace Operands

variable {image whole : Image} (hwhole : image.toList <+: whole.toList)

theorem add_of_ok {r r' : Except Fault (UInt32 × UInt32)} {ops : Operands}
    (hok : ∀ v, r = .ok v → r' = .ok v) (hfault : (ops.add r).fault = none) :
    ops.add r' = ops.add r := by
  cases r with
  | error f => simp [add] at hfault
  | ok v => rw [hok v rfl]

/-- Reading goes on only while nothing is missing. -/
theorem fault_readMany {read : UInt32 → Except Fault (UInt32 × UInt32)} {n : Nat} {ops : Operands}
    (h : (readMany read n ops).fault = none) : ops.fault = none := by
  cases hops : ops.fault with
  | none => rfl
  | some f => rw [readMany_of_fault hops, hops] at h; cases h

theorem readMany_mono {read read' : UInt32 → Except Fault (UInt32 × UInt32)}
    (hread : ∀ pc v, read pc = .ok v → read' pc = .ok v) {n : Nat} {ops : Operands}
    (h : (readMany read n ops).fault = none) : readMany read' n ops = readMany read n ops := by
  induction n generalizing ops with
  | zero => rfl
  | succ n ih =>
    have hops := fault_readMany h
    rw [readMany_succ hops] at h ⊢
    rw [readMany_succ hops, add_of_ok (hread ops.next) (fault_readMany h)]
    exact ih h

include hwhole

theorem readKind_mono {width : CodeWidth} {ops : Operands} {kind : OperandKind}
    (h : (readKind width image ops kind).fault = none) :
    readKind width whole ops kind = readKind width image ops kind := by
  cases kind with
  | word => exact add_of_ok (fun _ => Code.readWord_mono hwhole) h
  | index => exact add_of_ok (fun _ => Code.readIndex_mono hwhole) h
  | raw => exact add_of_ok (fun _ => Code.rawAsWord_mono hwhole) h
  | rawList =>
    unfold readKind at h ⊢
    cases hraw : Code.readRaw image ops.next with
    | error f => simp [hraw] at h
    | ok r =>
      simp only [hraw, Code.readRaw_mono hwhole hraw] at h ⊢
      exact readMany_mono (fun _ _ => Code.rawAsWord_mono hwhole) h
  | caseTable =>
    unfold readKind at h ⊢
    cases htable : Code.caseTable image ops.next with
    | error f => simp [htable] at h
    | ok r =>
      simp only [htable, Code.caseTable_mono hwhole htable] at h ⊢
      exact readMany_mono (fun _ _ => Code.readWord_mono hwhole) h

theorem readFrom_mono {width : CodeWidth} {layout : List OperandKind} {ops : Operands}
    (h : (readFrom width image ops layout).fault = none) :
    readFrom width whole ops layout = readFrom width image ops layout := by
  induction layout generalizing ops with
  | nil => rfl
  | cons kind rest ih =>
    cases hops : ops.fault with
    | some f => rw [readFrom_of_fault hops, readFrom_of_fault hops]
    | none =>
      rw [readFrom_cons hops] at h ⊢
      rw [readFrom_cons hops]
      cases hkind : (readKind width image ops kind).fault with
      | some f =>
        rw [readFrom_of_fault hkind, hkind] at h
        cases h
      | none =>
        rw [readKind_mono hwhole hkind]
        exact ih h

end Operands

/-! ## Instructions -/

/-- The operands that follow a number. There are none if it is no opcode. -/
def Instruction.layoutOf (number : UInt32) : List OperandKind :=
  ((Opcode.ofNumber? number).map Opcode.layout).getD []

/-- An instruction is a number with the operands of its layout. -/
theorem Instruction.decode_eq_ok_iff {image : Image} {width : CodeWidth} {offset : UInt32}
    {inst : Instruction} :
    decode width image offset = .ok inst ↔
      ∃ pc, Code.readNumber width image offset = .ok (inst.number, pc) ∧
        inst.offset = offset ∧ inst.opcode = Opcode.ofNumber? inst.number ∧
        Operands.read width image (layoutOf inst.number) pc =
          ⟨inst.operands, inst.next, none⟩ := by
  unfold decode layoutOf
  cases hnumber : Code.readNumber width image offset with
  | error f => simp [bind, Except.bind]
  | ok r =>
    obtain ⟨number, pc⟩ := r
    simp only [bind, Except.bind, pure, Except.pure, Except.ok.injEq, Prod.mk.injEq]
    constructor
    · cases hfound : Opcode.ofNumber? number with
      | none =>
        intro h
        cases h
        exact ⟨pc, ⟨rfl, rfl⟩, rfl, hfound.symm, by rw [hfound]; rfl⟩
      | some op =>
        intro h
        cases hfault : (Operands.read width image op.layout pc).fault with
        | some f =>
          simp only [hfault] at h
          cases h
        | none =>
          simp only [hfault] at h
          cases h
          exact ⟨pc, ⟨rfl, rfl⟩, rfl, hfound.symm, by rw [hfound]; exact hfault ▸ rfl⟩
    · obtain ⟨start, number', opcode, operands, next⟩ := inst
      rintro ⟨_, ⟨rfl, rfl⟩, rfl, hopcode, hread⟩
      dsimp only at hopcode hread
      cases hfound : Opcode.ofNumber? number with
      | none =>
        rw [hfound] at hopcode hread
        cases hread
        rw [hopcode]
      | some op =>
        rw [hfound] at hopcode hread
        rw [Option.map_some, Option.getD_some] at hread
        simp only [hread, hopcode]

theorem Instruction.decode_of_read {image : Image} {width : CodeWidth}
    {offset pc number next : UInt32} {values : Array Int32}
    (hnumber : Code.readNumber width image offset = .ok (number, pc))
    (hread : Operands.read width image (layoutOf number) pc = ⟨values, next, none⟩) :
    decode width image offset =
      .ok ⟨offset, number, Opcode.ofNumber? number, values, next⟩ :=
  decode_eq_ok_iff.mpr ⟨pc, hnumber, rfl, by dsimp only, hread⟩

/-- Bytes behind an instruction make no difference to it. -/
theorem Instruction.decode_mono {image whole : Image} (hwhole : image.toList <+: whole.toList)
    {width : CodeWidth} {offset : UInt32} {inst : Instruction}
    (h : decode width image offset = .ok inst) : decode width whole offset = .ok inst := by
  obtain ⟨pc, hnumber, hoffset, hopcode, hread⟩ := decode_eq_ok_iff.mp h
  refine decode_eq_ok_iff.mpr
    ⟨pc, Code.readNumber_mono hwhole hnumber, hoffset, hopcode, ?_⟩
  rw [← hread]
  exact Operands.readFrom_mono hwhole (congrArg Operands.fault hread)

end LevelScript
