import Mathlib.Algebra.Group.Nat.Defs
import Mathlib.Tactic.Common
import LevelScript.Machine.Control

/-!
# Reading the code

What reading operands gives: in what order operands of a layout are read, where a reading ends, and
that a case table lists the same cases whether it is searched in the code or in the operands read
from it.

* `Operands.readFrom`: the operands of a layout, after others.
* `Exec.searchCases_eq`: the search of a case table, in the operands.
* `Operands.read_caseTable`: the operands of a case table that is there.
-/

namespace LevelScript

/-! ## Offsets -/

namespace Code

variable {image : Image} {place : Nat}

theorem toNat_place (h : place < 2 ^ 32) : place.toUInt32.toNat = place :=
  UInt32.toNat_ofNat_of_lt' h

theorem place_add (n : Nat) : (place + n).toUInt32 = place.toUInt32 + n.toUInt32 :=
  UInt32.ofNat_add place n

theorem toUInt32_succ (n : Nat) : (n + 1).toUInt32 = n.toUInt32 + 1 := place_add 1

/-- A word is the bits of a mask and those outside it. -/
theorem and_not_add (x m : UInt32) : (x &&& ~~~m) + (x &&& m) = x := by
  apply UInt32.toBitVec_inj.mp
  rw [UInt32.toBitVec_add, UInt32.toBitVec_and, UInt32.toBitVec_and, UInt32.toBitVec_not]
  generalize x.toBitVec = y
  generalize m.toBitVec = z
  rw [BitVec.add_eq_or_of_and_eq_zero]
  · ext i hi
    simp only [BitVec.getElem_or, BitVec.getElem_and, BitVec.getElem_not]
    cases y[i] <;> cases z[i] <;> rfl
  · ext i hi
    simp only [BitVec.getElem_and, BitVec.getElem_not, BitVec.getElem_zero]
    cases y[i] <;> cases z[i] <;> rfl

/-- Padding leads to the next multiple of four. -/
theorem align_place (place : Nat) :
    align place.toUInt32 = (place + (4 - place % 4) % 4).toUInt32 := by
  generalize hx : place.toUInt32 + 3 = x
  have hlow : (x &&& 3).toNat = x.toNat % 4 := by
    rw [UInt32.toNat_and]
    exact Nat.and_two_pow_sub_one_eq_mod x.toNat 2
  have hsum := congrArg UInt32.toNat (and_not_add x 3)
  have hx' := congrArg UInt32.toNat hx
  rw [UInt32.toNat_add, show (3 : UInt32).toNat = 3 from rfl] at hx'
  rw [UInt32.toNat_add, hlow] at hsum
  apply UInt32.toNat_inj.mp
  rw [align, hx]
  have hlt := (x &&& ~~~(3 : UInt32)).toNat_lt
  simp only [Nat.toUInt32, UInt32.toNat_ofNat'] at hx' ⊢
  omega

/-! ## Numbers -/

theorem readWord_of_le {pc : UInt32} (h : pc.toNat + 4 ≤ image.size) :
    ∃ w, readWord image pc = .ok (w, pc + 4) := by
  unfold readWord Image.word?
  rw [dif_pos h]
  exact ⟨_, rfl⟩

theorem readWord_spec {pc w next : UInt32}
    (h : readWord image pc = .ok (w, next)) :
    next = pc + 4 ∧ pc.toNat + 4 ≤ image.size := by
  by_cases hroom : pc.toNat + 4 ≤ image.size
  · obtain ⟨v, hv⟩ := readWord_of_le hroom
    rw [hv, Except.ok.injEq, Prod.mk.injEq] at h
    exact ⟨h.2.symm, hroom⟩
  · rw [readWord, Image.word?, dif_neg hroom] at h
    cases h

theorem readRaw_spec {pc next : UInt32} {b : UInt8} (h : readRaw image pc = .ok (b, next)) :
    next = pc + 1 ∧ pc.toNat + 1 ≤ image.size := by
  unfold readRaw at h
  split at h
  · rename_i b' hb
    obtain ⟨hlt, -⟩ := Array.getElem?_eq_some_iff.mp hb
    rw [Except.ok.injEq, Prod.mk.injEq] at h
    exact ⟨h.2.symm, hlt⟩
  · cases h

/-- An offset behind another one, and not behind the image. -/
structure Ahead (image : Image) (pc next : UInt32) : Prop where
  lt : pc.toNat < next.toNat
  le : next.toNat ≤ image.size

theorem Ahead.trans {p q r : UInt32} (h : Ahead image p q) (h' : Ahead image q r) :
    Ahead image p r :=
  ⟨Nat.lt_trans h.lt h'.lt, h'.le⟩

section Ahead

variable (hsize : image.size < 2 ^ 32)
include hsize

theorem ahead_add {pc : UInt32} {n : Nat} (hn : 0 < n)
    (h : pc.toNat + n ≤ image.size) : Ahead image pc (pc + n.toUInt32) := by
  have hnext : (pc + n.toUInt32).toNat = pc.toNat + n := by
    rw [UInt32.toNat_add, toNat_place (by omega)]
    omega
  exact ⟨by omega, by omega⟩

theorem ahead_readWord {pc w next : UInt32}
    (h : readWord image pc = .ok (w, next)) : Ahead image pc next := by
  obtain ⟨rfl, hroom⟩ := readWord_spec h
  exact ahead_add hsize (n := 4) (by omega) hroom

theorem ahead_readRaw {pc next : UInt32} {b : UInt8}
    (h : readRaw image pc = .ok (b, next)) : Ahead image pc next := by
  obtain ⟨rfl, hroom⟩ := readRaw_spec h
  exact ahead_add hsize (n := 1) (by omega) hroom

theorem ahead_rawAsWord {pc v next : UInt32}
    (h : Operands.rawAsWord image pc = .ok (v, next)) : Ahead image pc next := by
  unfold Operands.rawAsWord at h
  cases hraw : readRaw image pc with
  | error f => simp [hraw, Except.map] at h
  | ok r =>
    simp only [hraw, Except.map, Except.ok.injEq, Prod.mk.injEq] at h
    exact h.2 ▸ ahead_readRaw hsize hraw

theorem ahead_readIndex {width : CodeWidth} {pc v next : UInt32}
    (h : readIndex width image pc = .ok (v, next)) : Ahead image pc next := by
  cases width with
  | wide => exact ahead_readWord hsize h
  | compact => exact ahead_rawAsWord hsize h

theorem ahead_readNumber {width : CodeWidth} {pc v next : UInt32}
    (h : readNumber width image pc = .ok (v, next)) : Ahead image pc next := by
  cases width with
  | wide => exact ahead_readWord hsize h
  | compact =>
    unfold readNumber at h
    cases hfirst : readRaw image pc with
    | error f => simp [hfirst, bind, Except.bind] at h
    | ok r =>
      obtain ⟨b₀, q⟩ := r
      have hq := ahead_readRaw hsize hfirst
      simp only [hfirst, bind, Except.bind] at h
      split at h
      · simp only [pure, Except.pure, Except.ok.injEq, Prod.mk.injEq] at h
        exact h.2 ▸ hq
      · cases hsecond : readRaw image q with
        | error f => simp [hsecond] at h
        | ok r' =>
          simp only [hsecond, pure, Except.pure, Except.ok.injEq, Prod.mk.injEq] at h
          exact h.2 ▸ hq.trans (ahead_readRaw hsize hsecond)

end Ahead

theorem caseTable_spec {pc base count : UInt32} (h : caseTable image pc = .ok (base, count)) :
    base = align pc ∧ readWord image base = .ok (count, base + 4) ∧
      (base + 4).toNat + 4 * (count.toNat * 2) ≤ image.size := by
  unfold caseTable at h
  cases hword : readWord image (align pc) with
  | error f => simp [bind, Except.bind, hword] at h
  | ok r =>
    obtain ⟨count', start⟩ := r
    obtain ⟨rfl, -⟩ := readWord_spec hword
    simp only [bind, Except.bind, hword] at h
    split at h
    · cases h
    · rename_i hroom
      obtain ⟨rfl, rfl⟩ : align pc = base ∧ count' = count := by
        simpa [pure, Except.pure] using h
      exact ⟨rfl, hword, by omega⟩

theorem toNat_align (pc : UInt32) (h : pc.toNat + 3 < 2 ^ 32) :
    pc.toNat ≤ (align pc).toNat := by
  have hplace := align_place pc.toNat
  rw [show pc.toNat.toUInt32 = pc from UInt32.ofNat_toNat] at hplace
  rw [hplace, toNat_place (by omega)]
  omega

end Code

/-! ## Operands of a layout -/

namespace Operands

variable {width : CodeWidth} {image : Image}

/-- Reads the operands of a layout after those already read. -/
def readFrom (width : CodeWidth) (image : Image) (ops : Operands) (layout : List OperandKind) :
    Operands :=
  layout.foldl (fun ops kind => if ops.fault.isSome then ops else readKind width image ops kind) ops

theorem readFrom_append (ops : Operands) (xs ys : List OperandKind) :
    readFrom width image ops (xs ++ ys) =
      readFrom width image (readFrom width image ops xs) ys :=
  List.foldl_append

theorem readFrom_of_fault {ops : Operands} {f : Fault} (h : ops.fault = some f)
    (layout : List OperandKind) : readFrom width image ops layout = ops := by
  induction layout with
  | nil => rfl
  | cons kind rest ih =>
    rw [readFrom, List.foldl_cons, h]
    exact ih

theorem readFrom_cons {ops : Operands} (h : ops.fault = none) (kind : OperandKind)
    (rest : List OperandKind) : readFrom width image ops (kind :: rest) =
      readFrom width image (readKind width image ops kind) rest := by
  rw [readFrom, List.foldl_cons, h]
  rfl

theorem readMany_of_fault {read : UInt32 → Except Fault (UInt32 × UInt32)} {ops : Operands}
    {f : Fault} (h : ops.fault = some f) (n : Nat) : readMany read n ops = ops := by
  cases n with
  | zero => rfl
  | succ n =>
    rw [readMany]
    simp only [h]

theorem readMany_succ {read : UInt32 → Except Fault (UInt32 × UInt32)} {ops : Operands}
    (h : ops.fault = none) (n : Nat) :
    readMany read (n + 1) ops = readMany read n (ops.add (read ops.next)) := by
  rw [readMany]
  simp only [h]

/-- Bytes that are counted are read like so many operands of one byte. -/
theorem readMany_raw (width : CodeWidth) (n : Nat) (ops : Operands) :
    readMany (rawAsWord image) n ops =
      readFrom width image ops (List.replicate n .raw) := by
  induction n generalizing ops with
  | zero => rfl
  | succ n ih =>
    cases h : ops.fault with
    | none => rw [readMany_succ h, List.replicate_succ, readFrom_cons h, ih]; rfl
    | some f => rw [readMany_of_fault h, readFrom_of_fault h]

/-- Words that are all there are read one after another. -/
theorem readMany_words {n : Nat} (ops : Operands) (hops : ops.fault = none)
    (hroom : ops.next.toNat + 4 * n ≤ image.size) :
    let after := readMany (Code.readWord image) n ops
    after.fault = none ∧ after.next = ops.next + 4 * n.toUInt32 ∧
      ∃ vs : Array Int32, vs.size = n ∧ after.values = ops.values ++ vs ∧
        ∀ i (h : i < vs.size), Code.readWord image (ops.next + 4 * i.toUInt32) =
          .ok (vs[i].toUInt32, ops.next + 4 * i.toUInt32 + 4) := by
  induction n generalizing ops with
  | zero => exact ⟨hops, by simp [readMany], #[], rfl, by simp [readMany], by simp⟩
  | succ n ih =>
    have hword : ops.next.toNat + 4 ≤ image.size := by omega
    obtain ⟨w, hw⟩ := Code.readWord_of_le hword
    have hnext : (ops.next + 4).toNat ≤ ops.next.toNat + 4 := by
      rw [UInt32.toNat_add]
      exact Nat.mod_le _ _
    obtain ⟨hfault, hafter, vs, hsize, hvalues, hall⟩ := ih (ops.add (.ok (w, ops.next + 4)))
      hops (by simp only [add]; omega)
    dsimp only
    rw [readMany_succ hops, hw]
    refine ⟨hfault, ?_, #[w.toInt32] ++ vs, by simp [hsize, Nat.add_comm], ?_, ?_⟩
    · rw [hafter, Code.toUInt32_succ]
      simp only [add]
      grind
    · rw [hvalues]
      simp [add]
    · intro i hi
      cases i with
      | zero => simpa using hw
      | succ i =>
        have h := hall i (by simpa [Nat.add_comm 1] using hi)
        have hplace : ops.next + 4 * (i + 1).toUInt32 = ops.next + 4 + 4 * i.toUInt32 := by
          rw [Code.toUInt32_succ]
          grind
        rw [hplace]
        simpa [add] using h

end Operands

/-! ## Case tables -/

namespace Exec

/-- The value of a case of a table, whose operands are a count and then values and targets. -/
def caseValue (operands : Array Int32) (i : Nat) : Int32 := operands.getD (1 + 2 * i) 0

def caseTarget (operands : Array Int32) (i : Nat) : UInt32 :=
  (operands.getD (2 + 2 * i) 0).toUInt32

/-- The operands of a table with the cases. -/
def caseOperands (entries : List (Int32 × UInt32)) : Array Int32 :=
  (Int32.ofNat entries.length :: entries.flatMap fun e => [e.1, e.2.toInt32]).toArray

theorem getElem?_pairs (entries : List (Int32 × UInt32)) (i : Nat) :
    (entries.flatMap fun e => [e.1, e.2.toInt32])[2 * i]? = entries[i]?.map (·.1) ∧
      (entries.flatMap fun e => [e.1, e.2.toInt32])[2 * i + 1]? =
        entries[i]?.map (·.2.toInt32) := by
  induction entries generalizing i with
  | nil => simp
  | cons e rest ih =>
    cases i with
    | zero => exact ⟨rfl, rfl⟩
    | succ i => exact ih i

theorem caseOperands_case {entries : List (Int32 × UInt32)} {i : Nat} (h : i < entries.length) :
    caseValue (caseOperands entries) i = entries[i].1 ∧
      caseTarget (caseOperands entries) i = entries[i].2 := by
  obtain ⟨hvalue, htarget⟩ := getElem?_pairs entries i
  rw [List.getElem?_eq_getElem h, Option.map_some] at hvalue htarget
  unfold caseValue caseTarget caseOperands
  rw [Array.getD_eq_getD_getElem?, Array.getD_eq_getD_getElem?, List.getElem?_toArray,
    List.getElem?_toArray, Nat.add_comm 1, Nat.add_comm 2, List.getElem?_cons_succ,
    List.getElem?_cons_succ, hvalue, htarget]
  exact ⟨rfl, rfl⟩

/-- The search of `searchCases`, in the operands. -/
def searchOperands (operands : Array Int32) (v : Int32) (low high : Nat) : Option UInt32 :=
  if low < high then
    let middle := low + (high - low) / 2
    let key := caseValue operands middle
    if key = v then some (caseTarget operands middle)
    else if key < v then searchOperands operands v (middle + 1) high
    else searchOperands operands v low middle
  else none
termination_by high - low
decreasing_by all_goals omega

/-- The table holds the cases that the operands list. -/
def ListsCases (image : Image) (base : UInt32) (operands : Array Int32) (count : Nat) : Prop :=
  ∀ i < count, ∃ next, Code.readWord image (base + 4 + i.toUInt32 * 8) =
    .ok ((caseValue operands i).toUInt32, next) ∧
      ∃ q, Code.readWord image next = .ok (caseTarget operands i, q)

theorem searchCases_step {image : Image} {base next : UInt32} {key v : Int32} {low high : Nat}
    (hlt : low < high) (hkey : Code.readWord image
      (base + 4 + (low + (high - low) / 2).toUInt32 * 8) = .ok (key.toUInt32, next)) :
    searchCases image base v low high =
      if key = v then (Code.readWord image next).map fun r => some r.1
      else if key < v then searchCases image base v (low + (high - low) / 2 + 1) high
      else searchCases image base v low (low + (high - low) / 2) := by
  rw [searchCases, if_pos hlt]
  simp only [bind, Except.bind]
  rw [hkey]
  rfl

theorem searchCases_eq {image : Image} {base : UInt32} {operands : Array Int32} {count : Nat}
    (hcases : ListsCases image base operands count) (v : Int32) (low high : Nat)
    (hhigh : high ≤ count) :
    searchCases image base v low high = .ok (searchOperands operands v low high) := by
  fun_induction searchOperands operands v low high with
  | case1 low high hlt middle key hkey =>
    obtain ⟨next, hvalue, q, htarget⟩ := hcases middle (by omega)
    rw [searchCases_step hlt hvalue, if_pos hkey, htarget]
    rfl
  | case2 low high hlt middle key hkey hless ih =>
    obtain ⟨next, hvalue, -⟩ := hcases middle (by omega)
    rw [searchCases_step hlt hvalue, if_neg hkey, if_pos hless]
    exact ih hhigh
  | case3 low high hlt middle key hkey hless ih =>
    obtain ⟨next, hvalue, -⟩ := hcases middle (by omega)
    rw [searchCases_step hlt hvalue, if_neg hkey, if_neg hless]
    exact ih (by omega)
  | case4 low high hlt =>
    rw [searchCases, if_neg hlt]
    rfl

/-- A case that is found has the value. -/
theorem searchOperands_spec {operands : Array Int32} {v : Int32} {low high : Nat}
    {target : UInt32} (h : searchOperands operands v low high = some target) :
    ∃ i < high, caseValue operands i = v ∧ caseTarget operands i = target := by
  fun_induction searchOperands operands v low high with
  | case1 low high hlt middle key hkey =>
    exact ⟨middle, by omega, hkey, Option.some.inj h⟩
  | case2 low high hlt middle key hkey hless ih => exact ih h
  | case3 low high hlt middle key hkey hless ih =>
    obtain ⟨i, hi, hcase⟩ := ih h
    exact ⟨i, by omega, hcase⟩
  | case4 low high hlt => cases h

end Exec

open Exec in
/-- The operands of a case table that is there. -/
theorem Operands.read_caseTable (width : CodeWidth) {image : Image} {pc base count : UInt32}
    (h : Code.caseTable image pc = .ok (base, count)) :
    let ops := Operands.read width image Opcode.caseGotoSorted.layout pc
    ops.fault = none ∧ ops.next = base + 4 + count * 8 ∧
      (ops.values.getD 0 0).toUInt32 = count ∧ ops.values.size = 1 + 2 * count.toNat ∧
      ListsCases image base ops.values count.toNat := by
  have hread : Operands.read width image Opcode.caseGotoSorted.layout pc =
      Operands.readMany (Code.readWord image) (count.toNat * 2)
        ⟨#[count.toInt32], base + 4, none⟩ := by
    show Operands.readKind width image ⟨#[], pc, none⟩ .caseTable = _
    simp only [Operands.readKind, h]
    rfl
  obtain ⟨hfault, hnext, vs, hsize, hvalues, hall⟩ :=
    readMany_words ⟨#[count.toInt32], base + 4, none⟩ rfl (Code.caseTable_spec h).2.2
  rw [← hread] at hfault hnext hvalues
  dsimp only at hnext hvalues hall
  refine ⟨hfault, ?_, ?_, ?_, ?_⟩
  · have hcount : (count.toNat * 2).toUInt32 = count * 2 := by
      simp [Nat.toUInt32, UInt32.ofNat_mul]
    rw [hnext, hcount]
    grind
  · rw [hvalues, Array.getD_eq_getD_getElem?, Array.getElem?_append_left (by simp)]
    simp
  · rw [hvalues, Array.size_append, hsize, Nat.mul_comm]
    rfl
  · intro i hi
    have hplace : base + 4 + i.toUInt32 * 8 = base + 4 + 4 * (2 * i).toUInt32 := by
      rw [show (2 * i).toUInt32 = 2 * i.toUInt32 from UInt32.ofNat_mul 2 i]
      grind
    have hplace' : base + 4 + i.toUInt32 * 8 + 4 = base + 4 + 4 * (2 * i + 1).toUInt32 := by
      rw [hplace, Code.toUInt32_succ]
      grind
    have hvalue : caseValue (#[count.toInt32] ++ vs) i = vs[2 * i] := by
      have hlt : 2 * i < vs.size := by omega
      simp [caseValue, hlt]
    have htarget : caseTarget (#[count.toInt32] ++ vs) i = vs[2 * i + 1].toUInt32 := by
      have hlt : 2 * i + 1 < vs.size := by omega
      rw [caseTarget, show 2 + 2 * i = 1 + (2 * i + 1) by omega]
      simp [hlt]
    refine ⟨base + 4 + i.toUInt32 * 8 + 4, ?_, base + 4 + i.toUInt32 * 8 + 4 + 4, ?_⟩
    · rw [hvalues, hvalue, hplace]
      exact hall (2 * i) (by omega)
    · rw [hvalues, htarget, hplace']
      exact hall (2 * i + 1) (by omega)

/-! ## Where a reading ends -/

namespace Operands

variable {width : CodeWidth} {image : Image} {pc : UInt32} {ops : Operands}

/-- The reading has come from an offset to one that is in the image and not before it. In an image
of nearly as many bytes as there are offsets, padding can lead back to the first one. -/
structure Within (image : Image) (pc : UInt32) (ops : Operands) : Prop where
  le : image.size + 3 < 2 ^ 32 → pc.toNat ≤ ops.next.toNat
  room : ops.next.toNat ≤ image.size

/-- The reading of a number moves on, or stays where it is. -/
theorem Within.add (h : ops.Within image pc) {r : Except Fault (UInt32 × UInt32)}
    (hr : ∀ v next, r = .ok (v, next) → Code.Ahead image ops.next next) :
    (ops.add r).Within image pc := by
  cases r with
  | error f => exact ⟨h.le, h.room⟩
  | ok r =>
    have hahead := hr r.1 r.2 rfl
    exact ⟨fun hfits => Nat.le_of_lt (Nat.lt_of_le_of_lt (h.le hfits) hahead.lt), hahead.le⟩

theorem Within.readMany {read : UInt32 → Except Fault (UInt32 × UInt32)}
    (hread : ∀ p v next, read p = .ok (v, next) → Code.Ahead image p next) (n : Nat)
    (h : ops.Within image pc) : (readMany read n ops).Within image pc := by
  induction n generalizing ops with
  | zero => exact h
  | succ n ih =>
    cases hfault : ops.fault with
    | some f => rwa [readMany_of_fault hfault]
    | none =>
      rw [readMany_succ hfault]
      exact ih (h.add fun v next => hread ops.next v next)

theorem Within.readKind (hsize : image.size < 2 ^ 32) (h : ops.Within image pc)
    (kind : OperandKind) : (readKind width image ops kind).Within image pc := by
  cases kind with
  | word => exact h.add fun _ _ => Code.ahead_readWord hsize
  | index => exact h.add fun _ _ => Code.ahead_readIndex hsize
  | raw => exact h.add fun _ _ => Code.ahead_rawAsWord hsize
  | rawList =>
    unfold Operands.readKind
    dsimp only
    split
    · exact ⟨h.le, h.room⟩
    · rename_i count next hraw
      refine Within.readMany (fun _ _ _ => Code.ahead_rawAsWord hsize) _ (h.add fun v q hq => ?_)
      obtain ⟨-, rfl⟩ : _ ∧ next = q := by simpa using hq
      exact Code.ahead_readRaw hsize hraw
  | caseTable =>
    unfold Operands.readKind
    dsimp only
    split
    · exact ⟨h.le, h.room⟩
    · rename_i base count htable
      obtain ⟨rfl, hword, -⟩ := Code.caseTable_spec htable
      have hahead := Code.ahead_readWord hsize hword
      refine Within.readMany (fun _ _ _ => Code.ahead_readWord hsize) _ ⟨fun hfits => ?_, hahead.le⟩
      have halign := Code.toNat_align ops.next (by have := h.room; omega)
      exact Nat.le_trans (h.le hfits) (Nat.le_trans halign (Nat.le_of_lt hahead.lt))

theorem Within.readFrom (hsize : image.size < 2 ^ 32) (layout : List OperandKind)
    (h : ops.Within image pc) : (readFrom width image ops layout).Within image pc := by
  induction layout generalizing ops with
  | nil => exact h
  | cons kind rest ih =>
    cases hfault : ops.fault with
    | some f => rwa [readFrom_of_fault hfault]
    | none =>
      rw [readFrom_cons hfault]
      exact ih (h.readKind hsize kind)

end Operands

/-- An instruction ends behind its offset and in the image. -/
theorem Instruction.ahead_decode_of_padded {width : CodeWidth} {image : Image} {offset : UInt32}
    {inst : Instruction} (hsize : image.size + 3 < 2 ^ 32)
    (h : decode width image offset = .ok inst) : Code.Ahead image offset inst.next := by
  unfold decode at h
  cases hnumber : Code.readNumber width image offset with
  | error f => simp [hnumber, bind, Except.bind] at h
  | ok r =>
    obtain ⟨number, pc⟩ := r
    have hfits : image.size < 2 ^ 32 := by omega
    have hpc := Code.ahead_readNumber hfits hnumber
    simp only [hnumber, bind, Except.bind] at h
    split at h
    · obtain rfl := Except.ok.inj h
      exact hpc
    · rename_i op _
      split at h
      · cases h
      · obtain rfl := Except.ok.inj h
        have hwithin : (Operands.read width image op.layout pc).Within image pc :=
          Operands.Within.readFrom hfits op.layout ⟨fun _ => Nat.le_refl _, hpc.le⟩
        exact ⟨Nat.lt_of_lt_of_le hpc.lt (hwithin.le hsize), hwithin.room⟩

theorem Instruction.ahead_decode {width : CodeWidth} {image : Image} {offset : UInt32}
    {inst : Instruction} (hsize : image.size < 2 ^ 31)
    (h : decode width image offset = .ok inst) : Code.Ahead image offset inst.next :=
  ahead_decode_of_padded (by omega) h

end LevelScript
