import LevelScript.Proofs.Assembly.ReadBack
import LevelScript.Proofs.Machine.Calls

/-!
# Sorted case jumps

A sorted case jump searches a table in the code by halving. What it finds depends on the cases of
the table and on nothing else in the image; where the values ascend, it is the case that single
case jumps, executed one after another, would take.

* `Code.Tabled`: cases stand in an image as a table.
* `Exec.searchCases_of_tabled`: the search of such a table.
* `Exec.searchOperands_eq_some_iff`: it finds each case of an ascending table.
* `Machine.iterate_step_chain`: single case jumps one after another.
-/

namespace LevelScript

/-! ## Tables in the code -/

namespace Code

/-- The bytes of a case: its value and its target. -/
def caseBytes (e : Int32 × UInt32) : List UInt8 := Bytes.le32 e.1.toUInt32 ++ Bytes.le32 e.2

/-- The bytes of a table: how many cases there are, and the cases. -/
def tableBytes (entries : List (Int32 × UInt32)) : List UInt8 :=
  Bytes.le32 entries.length.toUInt32 ++ entries.flatMap caseBytes

/-- The cases stand in the image as a table at an offset, and all offsets up to the end of the
table have 32 bits. -/
structure Tabled (image : Image) (base : UInt32) (entries : List (Int32 × UInt32)) : Prop where
  stands : image.Stands base.toNat (tableBytes entries)
  fits : base.toNat + (tableBytes entries).length < 2 ^ 32

theorem length_caseBytes (e : Int32 × UInt32) : (caseBytes e).length = 8 := rfl

theorem length_tableBytes (entries : List (Int32 × UInt32)) :
    (tableBytes entries).length = 4 + 8 * entries.length := by
  have hcases : (entries.flatMap caseBytes).length = 8 * entries.length := by
    rw [List.length_flatMap, List.map_congr_left fun e _ => length_caseBytes e, List.map_const',
      List.sum_replicate_nat, Nat.mul_comm]
  rw [tableBytes, List.length_append, hcases]
  rfl

variable {image : Image} {base : UInt32} {entries : List (Int32 × UInt32)}

theorem readWord_eq_ok_iff {pc w : UInt32} :
    readWord image pc = .ok (w, pc + 4) ↔ image.Stands pc.toNat (Bytes.le32 w) := by
  rw [← Image.word?_eq_some_iff, readWord]
  cases image.word? pc.toNat with
  | none => simp
  | some v => simp

theorem toNat_add_four {pc : UInt32} (h : pc.toNat + 4 < 2 ^ 32) :
    (pc + 4).toNat = pc.toNat + 4 := by
  rw [UInt32.toNat_add, show (4 : UInt32).toNat = 4 from rfl, Nat.mod_eq_of_lt h]

/-- Each case stands at its place. -/
theorem stands_case {place i : Nat} (h : image.Stands place (entries.flatMap caseBytes))
    (hi : i < entries.length) : image.Stands (place + 8 * i) (caseBytes entries[i]) := by
  induction entries generalizing place i with
  | nil => simp at hi
  | cons e rest ih =>
    rw [List.flatMap_cons, Image.stands_append, length_caseBytes] at h
    cases i with
    | zero => exact h.1
    | succ i =>
      have hrest := ih h.2 (Nat.lt_of_succ_lt_succ hi)
      rwa [show place + 8 + 8 * i = place + 8 * (i + 1) by omega] at hrest

/-- Whatever bytes there are, they are cases. -/
theorem exists_cases {place n : Nat} (h : place + 8 * n ≤ image.size) :
    ∃ entries : List (Int32 × UInt32), entries.length = n ∧
      image.Stands place (entries.flatMap caseBytes) := by
  induction n generalizing place with
  | zero => exact ⟨[], rfl, List.nil_prefix⟩
  | succ n ih =>
    obtain ⟨rest, hlength, hrest⟩ := ih (show place + 8 + 8 * n ≤ image.size by omega)
    obtain ⟨value, hvalue⟩ : ∃ w, image.word? place = some w :=
      ⟨_, dif_pos (show place + 4 ≤ image.size by omega)⟩
    obtain ⟨target, htarget⟩ : ∃ w, image.word? (place + 4) = some w :=
      ⟨_, dif_pos (show place + 4 + 4 ≤ image.size by omega)⟩
    refine ⟨(value.toInt32, target) :: rest, by simp [hlength], ?_⟩
    rw [List.flatMap_cons, Image.stands_append, caseBytes, Image.stands_append]
    exact ⟨⟨Image.word?_eq_some_iff.mp hvalue, Image.word?_eq_some_iff.mp htarget⟩, hrest⟩

theorem Tabled.length_lt (h : Tabled image base entries) :
    base.toNat + 4 + 8 * entries.length < 2 ^ 32 := by
  have hfits := h.fits
  rwa [length_tableBytes, ← Nat.add_assoc] at hfits

theorem Tabled.toNat_length (h : Tabled image base entries) :
    entries.length.toUInt32.toNat = entries.length :=
  toNat_place (by have := h.length_lt; omega)

/-- A table is accepted where it stands. -/
theorem Tabled.caseTable {pc : UInt32} (h : Tabled image (align pc) entries) :
    caseTable image pc = .ok (align pc, entries.length.toUInt32) := by
  obtain ⟨hcount, -⟩ := Image.stands_append.mp h.stands
  have hlt := h.length_lt
  have hroom : (align pc).toNat + (tableBytes entries).length ≤ image.size :=
    h.stands.le (by simp [tableBytes, Bytes.le32])
  rw [length_tableBytes] at hroom
  simp only [Code.caseTable, bind, Except.bind, readWord_eq_ok_iff.mpr hcount,
    toNat_add_four (show (align pc).toNat + 4 < 2 ^ 32 by omega), h.toNat_length]
  rw [if_neg (by omega)]
  rfl

/-- The tables that are accepted are those that stand in the image. -/
theorem caseTable_eq_ok_iff (hsize : image.size < 2 ^ 32) {pc count : UInt32} :
    caseTable image pc = .ok (base, count) ↔ base = align pc ∧
      ∃ entries, Tabled image base entries ∧ count = entries.length.toUInt32 := by
  constructor
  · intro h
    obtain ⟨rfl, hword, hroom⟩ := caseTable_spec h
    have hend := (readWord_spec hword).2
    rw [toNat_add_four (by omega)] at hroom
    obtain ⟨entries, hlength, hcases⟩ :=
      exists_cases (show (align pc).toNat + 4 + 8 * count.toNat ≤ image.size by omega)
    have hcount : count = entries.length.toUInt32 := by
      rw [hlength]
      exact UInt32.ofNat_toNat.symm
    refine ⟨rfl, entries, ⟨?_, ?_⟩, hcount⟩
    · rw [tableBytes, Image.stands_append, ← hcount]
      exact ⟨readWord_eq_ok_iff.mp hword, hcases⟩
    · rw [length_tableBytes]
      omega
  · rintro ⟨rfl, entries, h, rfl⟩
    exact h.caseTable

end Code

/-! ## The search -/

namespace Exec

open Code

variable {image : Image} {base : UInt32} {entries : List (Int32 × UInt32)} {v : Int32}

theorem listsCases_of_tabled (h : Tabled image base entries) :
    ListsCases image base (caseOperands entries) entries.length := by
  intro i hi
  obtain ⟨-, hcases⟩ := Image.stands_append.mp h.stands
  have hcase := stands_case hcases hi
  rw [show (Bytes.le32 entries.length.toUInt32).length = 4 from rfl, caseBytes,
    Image.stands_append] at hcase
  obtain ⟨hvalue, htarget⟩ := hcase
  have hlt := h.length_lt
  have hplace : (base + 4 + i.toUInt32 * 8).toNat = base.toNat + 4 + 8 * i := by
    rw [UInt32.toNat_add, toNat_add_four (by omega), UInt32.toNat_mul, toNat_place (by omega),
      show (8 : UInt32).toNat = 8 from rfl]
    omega
  have hplace' : (base + 4 + i.toUInt32 * 8 + 4).toNat = base.toNat + 4 + 8 * i + 4 := by
    rw [toNat_add_four (by omega), hplace]
  obtain ⟨hoperand, hoperand'⟩ := caseOperands_case hi
  rw [hoperand, hoperand']
  exact ⟨_, readWord_eq_ok_iff.mpr (hplace ▸ hvalue), _,
    readWord_eq_ok_iff.mpr (hplace' ▸ htarget)⟩

/-- What the search finds is determined by the cases. -/
theorem searchCases_of_tabled (h : Tabled image base entries) (v : Int32) :
    searchCases image base v 0 entries.length =
      .ok (searchOperands (caseOperands entries) v 0 entries.length) :=
  searchCases_eq (listsCases_of_tabled h) v 0 entries.length (Nat.le_refl _)

theorem mem_of_searchOperands {target : UInt32}
    (h : searchOperands (caseOperands entries) v 0 entries.length = some target) :
    (v, target) ∈ entries := by
  obtain ⟨i, hi, hvalue, htarget⟩ := searchOperands_spec h
  rw [(caseOperands_case hi).1] at hvalue
  rw [(caseOperands_case hi).2] at htarget
  have hmem : entries[i] ∈ entries := List.getElem_mem hi
  rwa [show entries[i] = (v, target) from Prod.ext hvalue htarget] at hmem

/-- Halving leads to the value wherever it is, as long as values ascend. -/
theorem searchOperands_of_ascending {operands : Array Int32} {n low high i : Nat}
    (hascends : ∀ j k, j < k → k < n → caseValue operands j < caseValue operands k)
    (hlow : low ≤ i) (hi : i < high) (hhigh : high ≤ n) (hv : caseValue operands i = v) :
    searchOperands operands v low high = some (caseTarget operands i) := by
  -- Before a place there are only smaller values, behind it only greater ones.
  have hbefore {j : Nat} (hj : j < i) : caseValue operands j < v :=
    hv ▸ hascends j i hj (by omega)
  have hbehind {j : Nat} (hj : i < j) (hn : j < n) : v < caseValue operands j :=
    hv ▸ hascends i j hj hn
  fun_induction searchOperands operands v low high with
  | case1 low high hlt middle key hkey =>
    obtain hlt | rfl | hgt := Nat.lt_trichotomy i middle
    · exact absurd hkey (Int32.ne_of_lt (hbehind hlt (by omega))).symm
    · rfl
    · exact absurd hkey (Int32.ne_of_lt (hbefore hgt))
  | case2 low high hlt middle key hkey hless ih =>
    refine ih ?_ hi hhigh
    obtain hlt | rfl | hgt := Nat.lt_trichotomy i middle
    · exact absurd hless (Int32.lt_asymm (hbehind hlt (by omega)))
    · exact absurd hv hkey
    · exact hgt
  | case3 low high hlt middle key hkey hless ih =>
    refine ih hlow ?_ (by omega)
    obtain hlt | rfl | hgt := Nat.lt_trichotomy i middle
    · exact hlt
    · exact absurd hv hkey
    · exact absurd (hbefore hgt) hless
  | case4 low high hlt => omega

/-- The search finds each case of an ascending table, and no other. -/
theorem searchOperands_eq_some_iff (h : entries.Pairwise fun e f => e.1 < f.1) {target : UInt32} :
    searchOperands (caseOperands entries) v 0 entries.length = some target ↔
      (v, target) ∈ entries := by
  refine ⟨mem_of_searchOperands, fun hmem => ?_⟩
  obtain ⟨i, hi, hcase⟩ := List.getElem_of_mem hmem
  obtain ⟨hvalue, htarget⟩ := caseOperands_case hi
  have hascends : ∀ j k, j < k → k < entries.length →
      caseValue (caseOperands entries) j < caseValue (caseOperands entries) k := by
    intro j k hjk hk
    rw [(caseOperands_case (Nat.lt_trans hjk hk)).1, (caseOperands_case hk).1]
    exact List.pairwise_iff_getElem.mp h j k _ hk hjk
  rw [searchOperands_of_ascending hascends (Nat.zero_le i) hi (Nat.le_refl _)
    (by rw [hvalue, hcase]), htarget, hcase]

end Exec

/-! ## Steps -/

/-- The instruction is a single case jump for a case. -/
def Instruction.IsCase (inst : Instruction) (e : Int32 × UInt32) : Prop :=
  inst.opcode = some .caseGoto ∧ inst.operands = #[e.1, e.2.toInt32]

namespace Machine

variable {ω : Type} {ctx : Context} {m : Machine ω} {v : Int32}

/-- The machine after looking for a case: at the target, with the value popped, or past the cases,
with the value still on the stack. -/
def landed (m : Machine ω) (past : UInt32) : Option UInt32 → Machine ω
  | some target => { m with stack := m.stack.pop }.moveTo target
  | none => m.moveTo past

/-- A sorted case jump lands where the search leads. -/
theorem caseGotoSorted_eq {base count : UInt32} {found : Option UInt32}
    (htable : Code.caseTable ctx.program.image m.inst.pc = .ok (base, count))
    (htop : m.top? ctx = some v)
    (hsearch : Exec.searchCases ctx.program.image base v 0 count.toNat = .ok found) :
    Exec.caseGotoSorted ctx m = .ok () (m.landed (base + 4 + count * 8) found) := by
  have htable' : Exec.ofExcept (Code.caseTable ctx.program.image m.inst.pc) ctx m =
      .ok (base, count) m := by
    rw [htable]
    rfl
  have hsearch' : Exec.ofExcept (Exec.searchCases ctx.program.image base v 0 count.toNat) ctx m =
      .ok found m := by
    rw [hsearch]
    rfl
  refine (Exec.bind_ok (x := read) rfl _).trans ((Exec.bind_ok (x := Exec.getInst) rfl _).trans
    ((Exec.bind_ok htable' _).trans ((Exec.bind_ok (Exec.peek_of_top? htop) _).trans
      ((Exec.bind_ok hsearch' _).trans ?_))))
  cases found with
  | none => rfl
  | some target => exact Exec.bind_ok (Exec.pop_of_top? htop) _

variable [Host ω]

open Code in
theorem step_sortedCases {next : UInt32} {entries : List (Int32 × UInt32)}
    (hnumber : readNumber ctx.program.codeWidth ctx.program.image m.inst.pc =
      .ok (Opcode.caseGotoSorted.number, next))
    (htable : Tabled ctx.program.image (align next) entries) (htop : m.top? ctx = some v) :
    Exec.step ctx m = .ok ()
      { m.landed ((align next).toNat + (tableBytes entries).length).toUInt32
          (Exec.searchOperands (Exec.caseOperands entries) v 0 entries.length) with
        journal := m.journal.note (.executing m.inst.number m.inst.pc .caseGotoSorted) } := by
  have hpast : align next + 4 + entries.length.toUInt32 * 8 =
      ((align next).toNat + (tableBytes entries).length).toUInt32 := by
    rw [length_tableBytes, ← Nat.add_assoc, place_add, place_add,
      show (8 * entries.length).toUInt32 = 8 * entries.length.toUInt32 from UInt32.ofNat_mul 8 _,
      show (align next).toNat.toUInt32 = align next from UInt32.ofNat_toNat, UInt32.mul_comm]
    rfl
  have hop : Opcode.ofNumber? Opcode.caseGotoSorted.number = some .caseGotoSorted := by
    decide +kernel
  have hsearch : Exec.searchCases ctx.program.image (align next) v 0
      entries.length.toUInt32.toNat =
        .ok (Exec.searchOperands (Exec.caseOperands entries) v 0 entries.length) := by
    rw [htable.toNat_length]
    exact Exec.searchCases_of_tabled htable v
  rw [Exec.step_of_ok hnumber, hop]
  refine (Exec.bind_ok (x := Exec.note _) rfl _).trans ?_
  have hlanded := caseGotoSorted_eq (m := { m.moveTo next with
    journal := m.journal.note (.executing m.inst.number m.inst.pc .caseGotoSorted) })
    htable.caseTable (show m.top? ctx = some v from htop) hsearch
  rw [hpast] at hlanded
  refine hlanded.trans ?_
  cases Exec.searchOperands (Exec.caseOperands entries) v 0 entries.length with
  | none => rfl
  | some target => rfl

/-- A single case jump lands at the target of its case, or past the instruction. -/
theorem step_case {inst : Instruction} {e : Int32 × UInt32}
    (hinst : m.instruction ctx = .ok inst) (hcase : inst.IsCase e) (htop : m.top? ctx = some v) :
    ∃ journal, m.step ctx =
      { m.landed inst.next (if v = e.1 then some e.2 else none) with journal := journal } := by
  let m₁ := m.begin .caseGoto inst.next
  have htop₁ : m₁.top? ctx = some v := htop
  refine ⟨m₁.journal, step_of_ok hinst hcase.1 ?_⟩
  rw [hcase.2]
  show (Exec.peek >>= fun w => if w == e.1 then Exec.pop >>= fun _ => Exec.jump e.2
    else pure ()) ctx m₁ = _
  rw [Exec.bind_ok (Exec.peek_of_top? htop₁)]
  by_cases hv : v = e.1
  · rw [if_pos (beq_iff_eq.mpr hv), if_pos hv]
    exact Exec.bind_ok (Exec.pop_of_top? htop₁) _
  · rw [if_neg (mt beq_iff_eq.mp hv), if_neg hv]
    rfl

/-- Single case jumps one after another land at the target of the first case with the value. -/
theorem iterate_step_chain {entries : List (Int32 × UInt32)} {chain : List Instruction}
    {stop : UInt32} (hcases : List.Forall₂ (fun e inst => inst.IsCase e) entries chain)
    (hchain : Instruction.Consecutive ctx.program.codeWidth ctx.program.image m.inst.pc chain stop)
    (htop : m.top? ctx = some v) :
    ∃ k ≤ chain.length, ∃ journal,
      (step ctx)^[k] m = { m.landed stop (entries.lookup v) with journal := journal } := by
  induction hcases generalizing m with
  | nil =>
    obtain rfl : m.inst.pc = stop := hchain
    exact ⟨0, Nat.le_refl _, m.journal, rfl⟩
  | @cons e inst entries chain hcase _ ih =>
    obtain ⟨hinst, -, hrest⟩ := hchain
    obtain ⟨journal, hstep⟩ := step_case hinst hcase htop
    by_cases hv : v = e.1
    · refine ⟨1, Nat.succ_le_succ (Nat.zero_le _), journal, ?_⟩
      rw [Function.iterate_one, hstep, if_pos hv, List.lookup_cons, hv, beq_self_eq_true]
      rfl
    · rw [if_neg hv] at hstep
      obtain ⟨k, hk, journal', hrun⟩ := ih (m := m.step ctx) (by rw [hstep]; exact hrest)
        (by rw [hstep]; exact htop)
      refine ⟨k + 1, Nat.succ_le_succ hk, journal', ?_⟩
      rw [Function.iterate_succ_apply, hrun, List.lookup_cons, beq_eq_false_iff_ne.mpr hv, hstep]
      cases entries.lookup v with
      | none => rfl
      | some target => rfl

end Machine

/-- Among ascending values, a case is found from the front if there is one. -/
theorem lookup_eq_some_iff_of_ascending {entries : List (Int32 × UInt32)}
    (h : entries.Pairwise fun e f => e.1 < f.1) {v : Int32} {target : UInt32} :
    entries.lookup v = some target ↔ (v, target) ∈ entries := by
  induction h with
  | nil => simp
  | @cons e rest hfirst _ ih =>
    rw [List.lookup_cons, List.mem_cons]
    by_cases hv : v = e.1
    · have hrest : (v, target) ∉ rest := by
        intro hmem
        exact Int32.lt_irrefl (hv ▸ hfirst _ hmem)
      rw [hv, beq_self_eq_true]
      simp [Prod.ext_iff, eq_comm, ← hv, hrest]
    · rw [beq_eq_false_iff_ne.mpr hv]
      simp [Prod.ext_iff, hv, ih]

/-! ## Tables that are assembled -/

namespace Assembly

open Draft (headerLength)
open Code

theorem spell_entries (width : CodeWidth) (labels : Label → UInt32) (place : Nat)
    (entries : List (Int32 × Label)) :
    Token.spell width labels place (entries.flatMap Token.entry) =
      (entries.map fun e => (e.1, labels e.2)).flatMap caseBytes := by
  induction entries generalizing place with
  | nil => rfl
  | cons e rest ih =>
    rw [List.flatMap_cons, Token.spell_append, ih]
    rfl

/-- Cases with distinct values ascend strictly once they are in order. -/
theorem Ascending.strict {given listed : List (Int32 × Label)} (h : Ascending given listed)
    (hdistinct : (given.map Prod.fst).Nodup) : listed.Pairwise fun e f => e.1 < f.1 := by
  have hnodup : (listed.map Prod.fst).Nodup := (h.perm.map Prod.fst).nodup_iff.mpr hdistinct
  rw [List.Nodup, List.pairwise_map] at hnodup
  exact (h.sorted.and hnodup).imp fun hle => Int32.lt_of_le_of_ne hle.1 hle.2

/-- A table is where its bytes stand, behind the padding. -/
theorem tabled_of_stands {image : Image} {width : CodeWidth} {labels : Label → UInt32}
    {place : Nat} {listed : List (Int32 × Label)}
    (hstands : image.Stands place (Token.spell width labels place
      (.align :: .word (Int32.ofNat listed.length) :: listed.flatMap Token.entry)))
    (hend : Token.reach width place
      (.align :: .word (Int32.ofNat listed.length) :: listed.flatMap Token.entry) < 2 ^ 32) :
    Tabled image (align place.toUInt32) (listed.map fun e => (e.1, labels e.2)) := by
  obtain ⟨base, hbase⟩ : ∃ base, place + Token.align.size width place = base := ⟨_, rfl⟩
  have hspell : Token.spell width labels base
      (.word (Int32.ofNat listed.length) :: listed.flatMap Token.entry) =
        tableBytes (listed.map fun e => (e.1, labels e.2)) := by
    rw [Token.spell, spell_entries, tableBytes, List.length_map]
    rfl
  rw [← @Token.length_spell width labels, Token.spell, List.length_append,
    Token.length_bytes, ← Nat.add_assoc, hbase, hspell] at hend
  rw [Token.spell, Image.stands_append, Token.length_bytes, hbase, hspell] at hstands
  have halign : (align place.toUInt32).toNat = base := by
    rw [align_place, ← toNat_place (show base < 2 ^ 32 by omega), ← hbase, Token.size, Token.bytes,
      List.length_replicate]
  exact ⟨halign ▸ hstands.2, halign ▸ hend⟩

/-- The table of a sorted case jump stands in the image of its module, in the order of its
values. -/
theorem tabled_of_cases (layout : Layout) (encoding : Text.Encoding)
    {declarations : List Declaration} {before after : List CodeItem}
    {entries : List (Int32 × Label)}
    (hcode : moduleCode declarations = before ++ .cases entries :: after)
    (hend : ((Draft.empty layout.codeWidth).emitCode (before ++ [.cases entries])).code.size <
      2 ^ 32) :
    ∃ next, readNumber layout.codeWidth (assemble layout encoding declarations).1
        ((Draft.empty layout.codeWidth).emitCode before).here =
          .ok (Opcode.caseGotoSorted.number, next) ∧
      Tabled (assemble layout encoding declarations).1 (align next)
        ((entries.mergeSort fun e f => e.1 ≤ f.1).map fun e =>
          (e.1, (Draft.ofDeclarations layout.codeWidth declarations).labelOffset e.2)) := by
  let d := Draft.ofDeclarations layout.codeWidth declarations
  obtain ⟨listed, hlisted⟩ : ∃ listed, entries.mergeSort (fun e f => e.1 ≤ f.1) = listed :=
    ⟨_, rfl⟩
  obtain ⟨place, hplace⟩ : ∃ place,
      Token.reach layout.codeWidth headerLength (tokens before) = place := ⟨_, rfl⟩
  have hcases : tokens [.cases entries] = .opcode Opcode.caseGotoSorted.number :: .align ::
      .word (Int32.ofNat listed.length) :: listed.flatMap Token.entry := by
    rw [← hlisted]
    exact List.append_nil _
  have hstands := (Draft.holds_ofDeclarations layout.codeWidth declarations).stands_spell encoding
    layout
  rw [Draft.ofDeclarations_width, hcode, ← List.singleton_append, tokens_append, tokens_append,
    hcases, Token.spell_append, Token.spell_append, Image.stands_append, Image.stands_append,
    Token.length_spell, hplace, Token.spell, Image.stands_append, Token.length_bytes] at hstands
  obtain ⟨-, ⟨hnumber, htable⟩, -⟩ := hstands
  have hholds := (Draft.holds_empty layout.codeWidth).emitCode (before ++ [.cases entries])
  rw [hholds.spells.size, Draft.emitCode_keeps, List.nil_append, tokens_append, hcases,
    Token.reach_append] at hend
  obtain ⟨next, hnext⟩ : ∃ next, place +
      Token.size layout.codeWidth place (.opcode Opcode.caseGotoSorted.number) = next := ⟨_, rfl⟩
  have hreach : Token.reach layout.codeWidth next (.align ::
      .word (Int32.ofNat listed.length) :: listed.flatMap Token.entry) < 2 ^ 32 := by
    rw [← hnext, ← hplace]
    exact hend
  rw [hnext] at htable
  rw [here_emitCode, hplace, hlisted]
  refine ⟨next.toUInt32, ?_, tabled_of_stands htable hreach⟩
  -- The number is read in the first bytes of the image, which offsets reach.
  have hfront : Image.Stands ((d.image encoding layout).extract 0 next) place _ :=
    stands_take hnumber (Nat.le_of_eq hnext)
  have hsize : ((d.image encoding layout).extract 0 next).size < 2 ^ 32 := by
    have hle : next ≤ Token.reach layout.codeWidth next (.align ::
      .word (Int32.ofNat listed.length) :: listed.flatMap Token.entry) := Token.le_reach _
    rw [Array.size_extract]
    omega
  have hread := readNumber_of_stands hsize (fun _ => by decide) hfront
  rw [show place + (Draft.opcodeBytes layout.codeWidth Opcode.caseGotoSorted.number).length = next
    from hnext] at hread
  refine readNumber_mono ?_ hread
  rw [Array.toList_extract, List.extract_eq_take_drop, List.drop_zero]
  exact List.take_prefix _ _

end Assembly

/-! ## Sorted and single cases -/

open Code in
/-- **A sorted case jump does what single case jumps do one after another.** In an image of less
than `2 ^ 32` bytes the tables that the machine accepts are those that stand in it as bytes.

* The search of a table, in order or not, gives a result that depends on its bytes alone; a target
  that it gives belongs to a case with the value.
* Where values ascend, a sorted case jump pops the value and goes to the target of the case that
  has it, or leaves the value and goes to the offset behind the table. Single case jumps for the
  same cases, one after another in any program, leave the same stack, and the instance at the same
  target or behind the last of them.
* A table that is assembled from cases with distinct values ascends, whatever their order. -/
theorem sortedCases_eq_chain :
    (∀ (image : Image) (pc base count : UInt32), image.size < 2 ^ 32 →
      (caseTable image pc = .ok (base, count) ↔ base = align pc ∧
        ∃ entries, Tabled image base entries ∧ count = entries.length.toUInt32)) ∧
    (∀ (base : UInt32) (entries : List (Int32 × UInt32)) (v : Int32), ∃ found,
      (∀ image, Tabled image base entries →
        Exec.searchCases image base v 0 entries.length = .ok found) ∧
      ∀ target, found = some target → (v, target) ∈ entries) ∧
    (∀ (ω : Type) [Host ω] (ctx : Context) (m : Machine ω) (next : UInt32)
        (entries : List (Int32 × UInt32)) (v : Int32),
      readNumber ctx.program.codeWidth ctx.program.image m.inst.pc =
        .ok (Opcode.caseGotoSorted.number, next) →
      Tabled ctx.program.image (align next) entries →
      (entries.Pairwise fun e f => e.1 < f.1) → m.top? ctx = some v →
      ∃ found, (∀ target, found = some target ↔ (v, target) ∈ entries) ∧
        Exec.step ctx m = .ok ()
          { m.landed ((align next).toNat + (tableBytes entries).length).toUInt32 found with
            journal := m.journal.note (.executing m.inst.number m.inst.pc .caseGotoSorted) } ∧
        ∀ (program : Program) (start stop : UInt32) (chain : List Instruction),
          List.Forall₂ (fun e inst => inst.IsCase e) entries chain →
          Instruction.Consecutive program.codeWidth program.image start chain stop →
          ∃ k ≤ chain.length, ∃ journal,
            (Machine.step { ctx with program := program })^[k] (m.moveTo start) =
              { m.landed stop found with journal := journal }) ∧
    ∀ (layout : Layout) (encoding : Text.Encoding) (declarations : List Assembly.Declaration)
        (before after : List Assembly.CodeItem) (entries : List (Int32 × Assembly.Label)),
      Assembly.moduleCode declarations = before ++ .cases entries :: after →
      ((Assembly.Draft.empty layout.codeWidth).emitCode (before ++ [.cases entries])).code.size <
        2 ^ 32 →
      (entries.map Prod.fst).Nodup →
      ∃ (offsets : Assembly.Label → UInt32) (next : UInt32) (listed : List (Int32 × UInt32)),
        (∀ label, .bind label ∈ Assembly.moduleCode declarations →
          Assembly.BoundAt layout.codeWidth (Assembly.moduleCode declarations) label
            (offsets label)) ∧
        readNumber layout.codeWidth (Assembly.assemble layout encoding declarations).1
          ((Assembly.Draft.empty layout.codeWidth).emitCode before).here =
            .ok (Opcode.caseGotoSorted.number, next) ∧
        Tabled (Assembly.assemble layout encoding declarations).1 (align next) listed ∧
        listed.Perm (entries.map fun e => (e.1, offsets e.2)) ∧
        listed.Pairwise fun e f => e.1 < f.1 := by
  refine ⟨fun image pc base count hsize => caseTable_eq_ok_iff hsize, ?_, ?_, ?_⟩
  · intro base entries v
    exact ⟨_, fun image h => Exec.searchCases_of_tabled h v,
      fun target => Exec.mem_of_searchOperands⟩
  · intro ω _ ctx m next entries v hnumber htable hascends htop
    refine ⟨_, fun target => Exec.searchOperands_eq_some_iff hascends,
      Machine.step_sortedCases hnumber htable htop, ?_⟩
    intro program start stop chain hcases hchain
    have hfound : entries.lookup v =
        Exec.searchOperands (Exec.caseOperands entries) v 0 entries.length :=
      Option.ext fun target => (lookup_eq_some_iff_of_ascending hascends).trans
        (Exec.searchOperands_eq_some_iff hascends).symm
    rw [← hfound]
    exact Machine.iterate_step_chain hcases hchain
      (show m.top? { ctx with program := program } = some v from htop)
  · intro layout encoding declarations before after entries hcode hend hdistinct
    obtain ⟨next, hnumber, htable⟩ := Assembly.tabled_of_cases layout encoding hcode hend
    have hascending := Assembly.ascending_mergeSort entries
    refine ⟨_, next, _, fun label => Assembly.boundAt_labelOffset layout.codeWidth, hnumber,
      htable, hascending.perm.map _, ?_⟩
    rw [List.pairwise_map]
    exact hascending.strict hdistinct

/-! ## A table with extreme values -/

namespace Extremes

def entries : List (Int32 × UInt32) := [(-2147483648, 100), (-1, 200), (2147483647, 300)]

/-- A sorted case jump in compact code. -/
def sorted : Program :=
  { (default : Program) with
    image := ([240, 16, 0, 0] ++ Code.tableBytes entries).toArray
    layout := .enhanced .compact }

/-- The single case jumps in wide code. -/
def chained : Program :=
  { (default : Program) with
    image := (entries.flatMap fun e =>
      Bytes.le32 Opcode.caseGoto.number ++ Code.caseBytes e).toArray
    layout := .enhanced .wide }

def chain : List Instruction :=
  [⟨0, Opcode.caseGoto.number, some .caseGoto, #[-2147483648, 100], 12⟩,
    ⟨12, Opcode.caseGoto.number, some .caseGoto, #[-1, 200], 24⟩,
    ⟨24, Opcode.caseGoto.number, some .caseGoto, #[2147483647, 300], 36⟩]

def context : Context := ⟨sorted, .standard, 0⟩

def machine (v : Int32) : Machine StillWorld :=
  ⟨default, #[.value v], default, .empty, default, #[], default⟩

theorem chain_isCase : List.Forall₂ (fun e inst => inst.IsCase e) entries chain :=
  .cons ⟨rfl, rfl⟩ (.cons ⟨rfl, rfl⟩ (.cons ⟨rfl, rfl⟩ .nil))

theorem chain_consecutive :
    Instruction.Consecutive chained.codeWidth chained.image 0 chain 36 := by
  refine ⟨?_, rfl, ?_, rfl, ?_, rfl, rfl⟩ <;> decide +kernel

/-- The items in front of the cases of a shuffled body, and behind them. -/
def front : List Assembly.CodeItem :=
  [.opcode Opcode.pushNumber.number, .byte 7, .bind 0, .opcode 105, .op .pushByteList, .byte 2,
    .byte 8, .byte 9]

def back : List Assembly.CodeItem :=
  [.op .goto, .target 0, .bind 1, .op (.pushVar .map), .index 200]

/-- The value -1 is the middle case, and 5 is no case. A body with its cases out of order gets an
ascending table. -/
theorem sortedCases_eq_chain_extremes :
    (∃ journal, Exec.step context (machine (-1)) =
      .ok () { (machine (-1)).landed 32 (some 200) with journal := journal }) ∧
    (∃ journal, Exec.step context (machine 5) =
      .ok () { (machine 5).landed 32 none with journal := journal }) ∧
    (∃ k ≤ 3, ∃ journal, (Machine.step { context with program := chained })^[k] (machine (-1)) =
      { (machine (-1)).landed 36 (some 200) with journal := journal }) ∧
    ∃ (offsets : Assembly.Label → UInt32) (next : UInt32) (listed : List (Int32 × UInt32)),
      Code.Tabled (Assembly.assemble (.legacyChunked .compact) .utf8
        (Assembly.Shuffled.before ++ [Assembly.Shuffled.body])).1 (Code.align next) listed ∧
      listed.Perm [(7, offsets 1), (3, offsets 0)] ∧ listed.Pairwise fun e f => e.1 < f.1 := by
  have hnumber (v : Int32) : Code.readNumber context.program.codeWidth context.program.image
      (machine v).inst.pc = .ok (Opcode.caseGotoSorted.number, 2) := by
    show Code.readNumber context.program.codeWidth context.program.image 0 = _
    decide +kernel
  have htable : Code.Tabled context.program.image (Code.align 2) entries :=
    ⟨⟨[], by decide +kernel⟩, by decide +kernel⟩
  have hascends : entries.Pairwise fun e f => e.1 < f.1 := by decide
  obtain ⟨found, hfound, hstep, hchain⟩ := sortedCases_eq_chain.2.2.1 StillWorld context
    (machine (-1)) 2 entries (-1) (hnumber (-1)) htable hascends rfl
  obtain ⟨none', hnone, hstep', -⟩ := sortedCases_eq_chain.2.2.1 StillWorld context
    (machine 5) 2 entries 5 (hnumber 5) htable hascends rfl
  obtain rfl : found = some 200 := (hfound 200).mpr (by decide)
  obtain rfl : none' = none := by
    refine Option.eq_none_iff_forall_ne_some.mpr fun target h => ?_
    have hmem := (hnone target).mp h
    simp [entries] at hmem
  obtain ⟨offsets, next, listed, -, -, htabled, hperm, hlisted⟩ := sortedCases_eq_chain.2.2.2
    (.legacyChunked .compact) .utf8 (Assembly.Shuffled.before ++ [Assembly.Shuffled.body]) front
    back [(7, 1), (3, 0)] rfl (by cbv) (by decide)
  exact ⟨⟨_, hstep⟩, ⟨_, hstep'⟩, hchain chained 0 36 chain chain_isCase chain_consecutive,
    offsets, next, listed, htabled, hperm, hlisted⟩

end Extremes

end LevelScript
