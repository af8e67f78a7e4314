import LevelScript.Proofs.Assembly.Drafts
import LevelScript.Proofs.World.Recorded

/-!
# Layouts make no difference

A module can be put together in wide or compact code, with or without an empty directory in front
of its chunks. Programs loaded from such images have the same instructions at offsets of the same
places, so they do the same, as long as they fetch inside the code.

* `operandsAlike_of_fills`: operands differ only where they are offsets of labels.
* `sameInstruction_of_samePlace`: the same instruction stands at offsets of the same place.
* `layouts_play_alike`: all layouts of a module give the same run.
-/

namespace LevelScript.Assembly

open Draft (headerLength)

/-! ## Operands -/

section Operands

variable {P : UInt32 → UInt32 → Prop} {labels₁ labels₂ : Label → UInt32}

/-- Operands in which no place is for an offset do not depend on labels. -/
theorem values_eq_of_plain {ps : List Place} {ts : List Token} (h : Token.Fills ps ts)
    (hplain : ∀ p ∈ ps, p ≠ .target ∧ p ≠ .cases) :
    ts.flatMap (Token.values labels₁) = ts.flatMap (Token.values labels₂) := by
  induction h with
  | nil => rfl
  | target label _ _ => exact absurd rfl (hplain .target List.mem_cons_self).1
  | cases entries _ _ => exact absurd rfl (hplain .cases List.mem_cons_self).2
  | word v _ ih =>
    rw [List.flatMap_cons, List.flatMap_cons, ih fun p hp => hplain p (List.mem_cons_of_mem _ hp)]
    rfl
  | index v _ _ ih =>
    rw [List.flatMap_cons, List.flatMap_cons, ih fun p hp => hplain p (List.mem_cons_of_mem _ hp)]
    rfl
  | raw v _ ih =>
    rw [List.flatMap_cons, List.flatMap_cons, ih fun p hp => hplain p (List.mem_cons_of_mem _ hp)]
    rfl
  | rawList vs _ _ ih =>
    rw [List.flatMap_cons, List.flatMap_cons, List.flatMap_append, List.flatMap_append,
      ih fun p hp => hplain p (List.mem_cons_of_mem _ hp), List.flatMap_map, List.flatMap_map]
    rfl

/-- The table after its count, read as operands. -/
theorem case_table (labels : Label → UInt32) {entries : List (Int32 × Label)} {i : Nat}
    (h : i < entries.length) :
    let operands := (Int32.ofNat entries.length ::
      (entries.flatMap Token.entry).flatMap (Token.values labels)).toArray
    Exec.caseValue operands i = entries[i].1 ∧
      Exec.caseTarget operands i = labels entries[i].2 := by
  intro operands
  have htable : operands = Exec.caseOperands (entries.map fun e => (e.1, labels e.2)) := by
    rw [Exec.caseOperands, List.length_map, List.flatMap_map]
    show (_ :: (entries.flatMap Token.entry).flatMap (Token.values labels)).toArray = _
    rw [List.flatMap_assoc]
    rfl
  have hi : i < (entries.map fun e => (e.1, labels e.2)).length := by rwa [List.length_map]
  obtain ⟨hvalue, htarget⟩ := Exec.caseOperands_case hi
  rw [htable, hvalue, htarget, List.getElem_map]
  exact ⟨rfl, rfl⟩

theorem caseTable_notMem_layout {op : Opcode} (h : op ≠ .caseGotoSorted) :
    .caseTable ∉ op.layout := by
  unfold Opcode.layout Opcode.directWords
  split <;> (try split) <;> simp_all

/-- An opcode that is no jump has no offsets among its operands. -/
theorem plain_places {op : Opcode} (h : places op = op.layout.map .ofKind)
    (hcases : op ≠ .caseGotoSorted) : ∀ p ∈ places op, p ≠ .target ∧ p ≠ .cases := by
  rw [h]
  intro p hp
  obtain ⟨kind, hkind, rfl⟩ := List.mem_map.mp hp
  have hne : kind ≠ .caseTable := fun heq => caseTable_notMem_layout hcases (heq ▸ hkind)
  cases kind with
  | caseTable => exact absurd rfl hne
  | _ => exact ⟨Place.noConfusion, Place.noConfusion⟩

/-- Operands of an opcode differ only where they are offsets of labels. -/
theorem operandsAlike_of_fills {op : Opcode} {ts : List Token} (h : Token.Fills (places op) ts)
    (hlabels : ∀ label, .target label ∈ ts → P (labels₁ label) (labels₂ label)) :
    Coupling.OperandsAlike P op (ts.flatMap (Token.values labels₁)).toArray
      (ts.flatMap (Token.values labels₂)).toArray := by
  unfold Coupling.OperandsAlike
  split
  · cases h with
    | target label h => exact hlabels label List.mem_cons_self
  · cases h with
    | target label h => exact hlabels label List.mem_cons_self
  · cases h with
    | word v h =>
      cases h with
      | target label h => exact ⟨rfl, hlabels label (by simp)⟩
  · cases h with
    | cases entries h =>
      cases h
      rw [List.append_nil] at hlabels ⊢
      refine ⟨rfl, fun i hi => ?_⟩
      have hcount : (Int32.ofNat entries.length).toUInt32.toNat ≤ entries.length := Nat.mod_le _ _
      have hlt : i < entries.length := Nat.lt_of_lt_of_le hi hcount
      obtain ⟨hvalue₁, htarget₁⟩ := case_table labels₁ hlt
      obtain ⟨hvalue₂, htarget₂⟩ := case_table labels₂ hlt
      have hmem : .target entries[i].2 ∈ entries.flatMap Token.entry :=
        List.mem_flatMap.mpr ⟨entries[i], List.getElem_mem hlt, by simp [Token.entry]⟩
      refine ⟨hvalue₁.trans hvalue₂.symm, ?_⟩
      have hplace := hlabels entries[i].2 (List.mem_cons_of_mem _ (List.mem_cons_of_mem _ hmem))
      rwa [← htarget₁, ← htarget₂] at hplace
  · rename_i hgoto hbranch hcase hsorted
    have hplaces : places op = op.layout.map .ofKind := by
      unfold places
      split
      · exact absurd rfl hgoto
      · exact absurd rfl (hbranch _)
      · exact absurd rfl hcase
      · rfl
    rw [values_eq_of_plain h (plain_places hplaces hsorted)]

end Operands

/-! ## Instructions -/

/-- The offset is before the end of the code. -/
def Draft.Inside (d : Draft) (p : UInt32) : Prop := p.toNat < d.code.size

instance (d : Draft) : DecidablePred d.Inside :=
  fun p => inferInstanceAs (Decidable (p.toNat < d.code.size))

section Images

variable {declarations : List Declaration} {layout : Layout} {front back : List Token}

/-- Where the image has the code from a place on. -/
theorem stands_code (encoding : Text.Encoding) (hlayout : layout ≠ .legacy)
    (hcode : tokens (moduleCode declarations) = front ++ back) :
    ((Draft.ofDeclarations layout.codeWidth declarations).image encoding layout).Stands
      (Token.reach layout.codeWidth headerLength front)
      (Token.spell layout.codeWidth
        (Draft.ofDeclarations layout.codeWidth declarations).labelOffset
        (Token.reach layout.codeWidth headerLength front) back) := by
  have hholds := Draft.holds_ofDeclarations layout.codeWidth declarations
  have hstands := (hholds.stands hlayout encoding).1
  rw [hcode, Token.spell_append, Image.stands_append, Token.length_spell,
    Draft.ofDeclarations_width] at hstands
  exact hstands.2

variable {encoding : Text.Encoding} (hlayout : layout ≠ .legacy)
  (hsize : ((Draft.ofDeclarations layout.codeWidth declarations).image encoding layout).size <
    2 ^ 32)

include hlayout hsize

/-- The number of an instruction is read at its place. -/
theorem readNumber_at {number : UInt32} (hnumber : number ≤ 4335)
    (hcode : tokens (moduleCode declarations) = front ++ .opcode number :: back) :
    Code.readNumber layout.codeWidth
        ((Draft.ofDeclarations layout.codeWidth declarations).image encoding layout)
        (Token.reach layout.codeWidth headerLength front).toUInt32 =
      .ok (number, (Token.reach layout.codeWidth headerLength
        (front ++ [.opcode number])).toUInt32) := by
  have hstands := stands_code encoding hlayout hcode
  rw [Token.spell, Image.stands_append] at hstands
  rw [Code.readNumber_of_stands hsize (fun _ => hnumber) hstands.1, Token.reach_append]
  rfl

/-- The operands of an instruction are read after its number. -/
theorem readOperands_at {op : Opcode} {operands : List Token}
    (hfills : Token.Fills (places op) operands)
    (hcode : tokens (moduleCode declarations) = front ++ (operands ++ back)) :
    Operands.read layout.codeWidth
        ((Draft.ofDeclarations layout.codeWidth declarations).image encoding layout) op.layout
        (Token.reach layout.codeWidth headerLength front).toUInt32 =
      ⟨(operands.flatMap (Token.values
          (Draft.ofDeclarations layout.codeWidth declarations).labelOffset)).toArray,
        (Token.reach layout.codeWidth headerLength (front ++ operands)).toUInt32, none⟩ := by
  have hstands := stands_code encoding hlayout hcode
  rw [Token.spell_append, Image.stands_append] at hstands
  rw [Token.read_of_fills hsize hfills hstands.1, Token.reach_append]

/-- A place inside the code is not its end. -/
theorem ne_nil_of_inside (hcode : tokens (moduleCode declarations) = front ++ back)
    (hinside : (Draft.ofDeclarations layout.codeWidth declarations).Inside
      (Token.reach layout.codeWidth headerLength front).toUInt32) : back ≠ [] := by
  rintro rfl
  have hholds := Draft.holds_ofDeclarations layout.codeWidth declarations
  obtain ⟨-, -, -, hend⟩ := hholds.stands hlayout encoding
  have hresolved := hholds.size_resolved
  have hcodeSize := hholds.spells.size
  rw [Draft.ofDeclarations_width, hcode, List.append_nil] at hresolved hcodeSize
  unfold Draft.Inside at hinside
  rw [hcodeSize, Nat.toUInt32, UInt32.toNat_ofNat_of_lt' (show _ < 2 ^ 32 by omega)]
    at hinside
  exact Nat.lt_irrefl _ hinside

end Images

/-! ## The same module in two layouts -/

section Link

variable {declarations : List Declaration} {layout₁ layout₂ : Layout}
  {encoding reading : Text.Encoding} {ω₁ ω₂ : Type}

/-- Two simulations of one module, put together in two layouts. -/
def layoutLink (W : ω₁ → ω₂ → Prop) (declarations : List Declaration) (layout₁ layout₂ : Layout)
    (encoding reading : Text.Encoding) (config : Config) : Link ω₁ ω₂ where
  pcs := SamePlace declarations layout₁.codeWidth layout₂.codeWidth
  inside := (Draft.ofDeclarations layout₁.codeWidth declarations).Inside
  worlds := W
  left := (Draft.ofDeclarations layout₁.codeWidth declarations).program layout₁ encoding reading
  right := (Draft.ofDeclarations layout₂.codeWidth declarations).program layout₂ encoding reading
  config := config
  sameHandles := True

theorem sameInstruction_of_samePlace (h : WellFormed declarations)
    (hlayout₁ : layout₁ ≠ .legacy) (hlayout₂ : layout₂ ≠ .legacy)
    (hsize₁ : (assemble layout₁ encoding declarations).1.size < 2 ^ 32)
    (hsize₂ : (assemble layout₂ encoding declarations).1.size < 2 ^ 32)
    (W : ω₁ → ω₂ → Prop) (config : Config) (origin : Instance) {p q : UInt32}
    (hpq : SamePlace declarations layout₁.codeWidth layout₂.codeWidth p q)
    (hinside : (Draft.ofDeclarations layout₁.codeWidth declarations).Inside p) :
    ((layoutLink W declarations layout₁ layout₂ encoding reading config).coupling
      origin).SameInstruction p q := by
  obtain ⟨front, back, hcode, hfront, hback, rfl, rfl⟩ := hpq
  have hne := ne_nil_of_inside hlayout₁ hsize₁ hcode hinside
  cases hback with
  | nil => exact absurd rfl hne
  | @unknown number small opcode rest hrest =>
    refine .unknown (readNumber_at hlayout₁ hsize₁ small hcode)
      (readNumber_at hlayout₂ hsize₂ small hcode) opcode ?_
    refine ⟨front ++ [.opcode number], rest, ?_, hfront.append (.unknown small opcode .nil), hrest,
      rfl, rfl⟩
    rw [hcode, List.append_assoc]
    rfl
  | @known number op small opcode operands rest fills hrest =>
    have hcode' : tokens (moduleCode declarations) =
        (front ++ [.opcode number]) ++ (operands ++ rest) := by
      rw [hcode, List.append_assoc]
      rfl
    have hleft := readOperands_at hlayout₁ hsize₁ fills hcode'
    have hright := readOperands_at hlayout₂ hsize₂ fills hcode'
    have hwhole : Token.Whole (.opcode number :: operands) := by
      have hknown := Token.Whole.known small opcode fills .nil
      rwa [List.append_nil] at hknown
    have hnext : SamePlace declarations layout₁.codeWidth layout₂.codeWidth
        (Token.reach layout₁.codeWidth headerLength
          (front ++ [.opcode number] ++ operands)).toUInt32
        (Token.reach layout₂.codeWidth headerLength
          (front ++ [.opcode number] ++ operands)).toUInt32 := by
      refine ⟨front ++ [.opcode number] ++ operands, rest, ?_, ?_, hrest, rfl, rfl⟩
      · rw [hcode', List.append_assoc _ operands]
      · rw [List.append_assoc]
        exact hfront.append hwhole
    have hvalues := operandsAlike_of_fills fills fun label hmem =>
      samePlace_label h layout₁.codeWidth layout₂.codeWidth
        (hcode' ▸ List.mem_append_right _ (List.mem_append_left _ hmem))
    exact .whole (readNumber_at hlayout₁ hsize₁ small hcode)
      (readNumber_at hlayout₂ hsize₂ small hcode) opcode (congrArg Operands.fault hleft)
      (congrArg Operands.fault hright)
      ((congrArg₂ _ (congrArg Operands.next hleft) (congrArg Operands.next hright)).mpr hnext)
      ((congrArg₂ _ (congrArg Operands.values hleft) (congrArg Operands.values hright)).mpr hvalues)

/-- Both layouts of a module have the same scripts, functions, texts and instructions. -/
theorem fair_layoutLink [Host ω₁] [Host ω₂] {W : ω₁ → ω₂ → Prop} (hosts : Host.Alike W)
    (h : WellFormed declarations) (hlayout₁ : layout₁ ≠ .legacy) (hlayout₂ : layout₂ ≠ .legacy)
    (hsize₁ : (assemble layout₁ encoding declarations).1.size < 2 ^ 32)
    (hsize₂ : (assemble layout₂ encoding declarations).1.size < 2 ^ 32)
    (reading : Text.Encoding) (config : Config) :
    (layoutLink W declarations layout₁ layout₂ encoding reading config).Fair := by
  have hscripts := scripts_program_alike
    (scripts_alike h.fits layout₁.codeWidth layout₂.codeWidth) layout₁ layout₂ encoding reading
  refine
    { hosts := hosts
      texts := fun i => ?_
      functions := fun index => ?_
      scripts := findScript_alike hscripts
      kinds := scriptsOfKind_alike hscripts
      instructions := fun origin p q => sameInstruction_of_samePlace h hlayout₁ hlayout₂ hsize₁
        hsize₂ W config origin }
  · have htables : (Draft.ofDeclarations layout₁.codeWidth declarations).tables =
        (Draft.ofDeclarations layout₂.codeWidth declarations).tables :=
      tables_foldl_declare declarations rfl
    have hstrings : (Draft.ofDeclarations layout₁.codeWidth declarations).strings encoding reading =
        (Draft.ofDeclarations layout₂.codeWidth declarations).strings encoding reading := by
      rw [Draft.strings, Draft.strings, htables]
    exact congrArg (Strings.lookup · i config.locale) hstrings
  · have hfunctions := Coupling.rel_getElem?
      (functions_alike h layout₁.codeWidth layout₂.codeWidth) index.toNat
    rwa [Array.getElem?_toList, Array.getElem?_toList] at hfunctions

theorem memory_layouts (declarations : List Declaration) (w₁ w₂ : CodeWidth) :
    (Draft.ofDeclarations w₁ declarations).memory =
      (Draft.ofDeclarations w₂ declarations).memory := by
  rw [Draft.memory, Draft.memory, arrays_ofDeclarations, arrays_ofDeclarations,
    mapInits_ofDeclarations, mapInits_ofDeclarations]

end Link

end LevelScript.Assembly

namespace LevelScript

theorem Operation.shared_of_sameHandles {ω₁ ω₂ : Type} {k : Link ω₁ ω₂} (h : k.sameHandles)
    (op : Operation) : op.Shared k := by
  have hwhich : ∀ which : Which, which.Shared k := by
    intro which
    cases which with
    | handle a => exact h
    | _ => trivial
  cases op with
  | putFirst which => exact hwhich which
  | putLast which => exact hwhich which
  | _ => trivial

/-- New levels on the two sides of a link. -/
theorem Simulation.beside_new {ω₁ ω₂ : Type} (k : Link ω₁ ω₂)
    (hmemory : k.right.memory = k.left.memory) {w₁ : ω₁} {w₂ : ω₂} (hw : k.worlds w₁ w₂)
    (map : Int32) (session : Session) (j₁ j₂ : Journal) :
    Beside k [] ⟨.start k.left map k.config, session, w₁, j₁⟩
      ⟨.start k.right map k.config, session, w₂, j₂⟩ where
  level :=
    { matched :=
        { left := rfl
          right := rfl
          tracked := fun _ => .none
          sound₁ := Level.sound_start ..
          sound₂ := Level.sound_start ..
          alike := fun _ hp => absurd hp List.not_mem_nil
          cells := fun _ => .refl _
          handles := fun _ _ hp => absurd hp List.not_mem_nil }
      program₁ := rfl
      program₂ := rfl
      config₁ := rfl
      config₂ := rfl
      map := rfl
      memory := hmemory
      stack₁ := rfl
      stack₂ := rfl
      tick := rfl
      pending := rfl
      reapPending := rfl
      ready := .nil
      nodup := List.nodup_nil }
  session := rfl
  world := hw

namespace Assembly

/-- A module does the same in all layouts with chunks. Its images load, and levels with the loaded
programs go on alike as long as they fetch inside the code: all operations tell the same, ask the
same of hosts that answer alike, and leave the same session, the same memory, and instances that
differ only in offsets, which are of the same places. Offsets in an image have 32 bits. -/
theorem layouts_play_alike {declarations : List Declaration} (h : WellFormed declarations)
    {layout₁ layout₂ : Layout} (hlayout₁ : layout₁ ≠ .legacy) (hlayout₂ : layout₂ ≠ .legacy)
    (encoding reading : Text.Encoding)
    (hsize₁ : (assemble layout₁ encoding declarations).1.size < 2 ^ 32)
    (hsize₂ : (assemble layout₂ encoding declarations).1.size < 2 ^ 32) :
    ∃ p₁ p₂, Loading.Gives (Image.load (assemble layout₁ encoding declarations).1 reading) p₁ ∧
      Loading.Gives (Image.load (assemble layout₂ encoding declarations).1 reading) p₂ ∧
      ∀ {ω₁ ω₂ : Type} [Host ω₁] [Host ω₂] {W : ω₁ → ω₂ → Prop}, Host.Alike W →
        ∀ {w₁ : ω₁} {w₂ : ω₂}, W w₁ w₂ →
        ∀ (map : Int32) (config : Config) (session : Session) (j₁ j₂ : Journal)
          (ops : List Operation),
        let s₁ : Simulation (Recorded ω₁) := ⟨.start p₁ map config, session, ⟨w₁, []⟩, j₁⟩
        let s₂ : Simulation (Recorded ω₂) := ⟨.start p₂ map config, session, ⟨w₂, []⟩, j₂⟩
        s₁.PlayWithin (Draft.ofDeclarations layout₁.codeWidth declarations).Inside ops →
        let r₁ := s₁.play ops
        let r₂ := s₂.play ops
        r₂.1 = r₁.1 ∧ r₂.2.world.calls = r₁.2.world.calls ∧ r₂.2.session = r₁.2.session ∧
          r₂.2.level.memory = r₁.2.level.memory ∧
          List.Forall₂
            (Instance.Alike (SamePlace declarations layout₁.codeWidth layout₂.codeWidth))
            r₁.2.level.instances r₂.2.level.instances := by
  have hroom : ∀ layout, ∀ decl ∈ declarations, decl.HasRoom layout :=
    fun layout decl hdecl => (h.fits decl hdecl).hasRoom layout
  refine ⟨_, _, gives_load_assemble hlayout₁ (hroom layout₁) hsize₁ reading,
    gives_load_assemble hlayout₂ (hroom layout₂) hsize₂ reading, ?_⟩
  intro ω₁ ω₂ _ _ W hosts w₁ w₂ hw map config session j₁ j₂ ops s₁ s₂ hwithin r₁ r₂
  have hfair :=
    fair_layoutLink (Recorded.alike_both hosts) h hlayout₁ hlayout₂ hsize₁ hsize₂ reading
    config
  have hboth : Recorded.Both W ⟨w₁, []⟩ ⟨w₂, []⟩ := ⟨hw, rfl⟩
  have hbeside := Simulation.beside_new
    (layoutLink (Recorded.Both W) declarations layout₁ layout₂ encoding reading config)
    (memory_layouts declarations _ _) hboth map session j₁ j₂
  have hshared : ∀ op ∈ ops, op.Shared
      (layoutLink (Recorded.Both W) declarations layout₁ layout₂ encoding reading config) :=
    fun op _ => op.shared_of_sameHandles trivial
  obtain ⟨htold, ps, hbeside'⟩ := Simulation.parallel_play hfair hbeside
    (Level.atRest_start ..) hshared (.inl trivial) hwithin
  exact ⟨htold, hbeside'.world.2, hbeside'.session, hbeside'.level.memory,
    hbeside'.instances_alike⟩

/-! ## A module with a table, a call and a loop -/

namespace Detour

/-- The script first jumps through a table. -/
def tableCode : List CodeItem :=
  CodeItem.push 7 ++
    [.op .caseGotoSorted, .align, .word 2, .word 3, .target 0, .word 7, .target 1, .op .terminate]

def callCode : List CodeItem := [.op (.call true), .index 0]

def loopCode : List CodeItem := [.op (.delay .words), .word 2] ++ CodeItem.jump .goto 0

/-- The script goes through the table to a call, and then waits in a loop. -/
def scriptCode : List CodeItem := tableCode ++ .bind 1 :: (callCode ++ .bind 0 :: loopCode)

/-- The function writes a map variable. -/
def functionCode : List CodeItem :=
  CodeItem.push 5 ++ [.op (.updateVar .assign .map), .index 3, .op .returnVoid]

def declarations : List Declaration :=
  [.script 1 0 0 scriptCode, .function 0 0 false, .define 0 functionCode]

def opcodes : List Opcode :=
  [.pushNumber, .caseGotoSorted, .terminate, .call true, .delay .words, .goto,
    .updateVar .assign .map, .returnVoid]

theorem opcodes_known : ∀ op ∈ opcodes,
    op.number ≤ 4335 ∧ Opcode.ofNumber? op.number = some op := by decide +kernel

theorem whole_instruction (op : Opcode) (hop : op ∈ opcodes) {operands rest : List Token}
    (fills : Token.Fills (places op) operands) (h : Token.Whole rest) :
    Token.Whole (.opcode op.number :: (operands ++ rest)) :=
  .known (opcodes_known op hop).1 (opcodes_known op hop).2 fills h

theorem whole_tableCode : Token.Whole (tokens tableCode) := by
  have hend := whole_instruction .terminate (by decide) .nil .nil
  have htable := whole_instruction .caseGotoSorted (by decide) (.cases [(3, 0), (7, 1)] .nil) hend
  have hpush := whole_instruction .pushNumber (by decide) (.word 7 .nil) htable
  exact hpush

theorem whole_callCode : Token.Whole (tokens callCode) := by
  have hcall := whole_instruction (.call true) (by decide) (.index 0 (by decide) .nil) .nil
  exact hcall

theorem whole_loopCode : Token.Whole (tokens loopCode) := by
  have hgoto := whole_instruction .goto (by decide) (.target 0 .nil) .nil
  have hdelay := whole_instruction (.delay .words) (by decide) (.word 2 .nil) hgoto
  exact hdelay

theorem whole_functionCode : Token.Whole (tokens functionCode) := by
  have hreturn := whole_instruction .returnVoid (by decide) .nil .nil
  have hassign := whole_instruction (.updateVar .assign .map) (by decide)
    (.index 3 (by decide) .nil) hreturn
  have hpush := whole_instruction .pushNumber (by decide) (.word 5 .nil) hassign
  exact hpush

theorem wellFormed : WellFormed declarations where
  fits := by
    have hscript : Token.Whole (tokens scriptCode) :=
      whole_tableCode.append (whole_callCode.append whole_loopCode)
    simp only [declarations, List.forall_mem_cons, Declaration.Fits, Image.IsShort]
    exact ⟨⟨by decide, by decide, hscript⟩, trivial, whole_functionCode, by simp⟩
  labels label hlabel := by
    have hcases : label = 1 ∨ label = 0 := by
      simp [declarations, moduleCode, Declaration.code, scriptCode, tableCode, callCode, loopCode,
        functionCode, CodeItem.push, CodeItem.jump, CodeItem.op, tokens, CodeItem.tokens] at hlabel
      tauto
    rcases hcases with rfl | rfl
    · exact ⟨tableCode, callCode ++ .bind 0 :: loopCode ++ functionCode, rfl, by decide,
        whole_tableCode, whole_callCode.append (whole_loopCode.append whole_functionCode)⟩
    · exact ⟨tableCode ++ .bind 1 :: callCode, loopCode ++ functionCode, rfl, by decide,
        whole_tableCode.append whole_callCode, whole_loopCode.append whole_functionCode⟩
  functions before argCount localCount hasReturn after hsplit := by
    obtain _ | ⟨first, _ | ⟨second, _ | ⟨third, before⟩⟩⟩ := before
    · cases hsplit
    · cases hsplit
      exact ⟨0, functionCode, List.mem_cons_self, rfl⟩
    · cases hsplit
    · simp [declarations] at hsplit

/-- The program of the module in wide code. -/
def program : Program :=
  (Draft.ofDeclarations .wide declarations).program (.enhanced .wide) .windows1252 .windows1252

def idle : Simulation (Recorded StillWorld) :=
  ⟨.start program 1 .standard, .empty, ⟨default, []⟩, default⟩

def started : Simulation (Recorded StillWorld) := (idle.start { script := 1 }).2

/-- The script has gone through the table and the call, and waits. -/
def waiting : Simulation (Recorded StillWorld) := started.dropReady.visit ⟨0, 0⟩

/-- What is done for the launch. -/
def launchActs : List Act :=
  .start { script := 1 } :: .takeReady :: started.dropReady.visitActs ⟨0, 0⟩ ++ waiting.reapActs

theorem facts : (started.level.pending = [] ∧ started.level.ready = [⟨0, 0⟩] ∧
      waiting.level.pending = [] ∧ waiting.level.ready = []) ∧
    idle.Within (Draft.ofDeclarations .wide declarations).Inside launchActs ∧
    waiting.reap.level.memory.var? 3 = some 5 ∧
    waiting.reap.level.instances.map (·.pc) = [60] := by decide +kernel

theorem playWithin_idle : idle.PlayWithin (Draft.ofDeclarations .wide declarations).Inside
    [.launch { script := 1 }] := by
  obtain ⟨⟨hpending, hready, hquiet⟩, hwithin, -⟩ := facts
  have hdone : waiting.settleActs 1023 = waiting.reapActs :=
    Simulation.settleActs_done hquiet.1 hquiet.2
  have hacts : Operation.acts idle (.launch { script := 1 }) = launchActs := by
    rw [Operation.acts_launch rfl hpending hready]
    exact congrArg (fun rest => _ :: _ :: (_ ++ rest)) hdone
  exact ⟨hacts ▸ hwithin, trivial⟩

theorem play_idle : (idle.play [.launch { script := 1 }]).2 = waiting.reap := by
  obtain ⟨⟨hpending, hready, hquiet⟩, -⟩ := facts
  exact Operation.run_launch rfl hpending hready hquiet.1 hquiet.2

/-- The call is reached through the table, at offsets that differ; then both scripts wait. -/
theorem layouts_play_alike_detour :
    ∃ p₁ p₂, Loading.Gives (Image.load (assemble (.enhanced .wide) .windows1252 declarations).1
        .windows1252) p₁ ∧
      Loading.Gives (Image.load (assemble (.legacyChunked .compact) .windows1252 declarations).1
        .windows1252) p₂ ∧
      let s₁ : Simulation (Recorded StillWorld) :=
        ⟨.start p₁ 1 .standard, .empty, ⟨default, []⟩, default⟩
      let s₂ : Simulation (Recorded StillWorld) :=
        ⟨.start p₂ 1 .standard, .empty, ⟨default, []⟩, default⟩
      let r₁ := s₁.play [.launch { script := 1 }]
      let r₂ := s₂.play [.launch { script := 1 }]
      r₂.1 = r₁.1 ∧ r₂.2.world.calls = r₁.2.world.calls ∧ r₂.2.session = r₁.2.session ∧
        r₂.2.level.memory = r₁.2.level.memory ∧ r₁.2.level.memory.var? 3 = some 5 ∧
        List.Forall₂ (Instance.Alike (SamePlace declarations .wide .compact))
          r₁.2.level.instances r₂.2.level.instances ∧
        r₁.2.level.instances.map (·.pc) = [60] := by
  have hroom : ∀ decl ∈ declarations, decl.HasRoom (.enhanced .wide) :=
    fun decl hdecl => (wellFormed.fits decl hdecl).hasRoom _
  have hsize₁ : (assemble (.enhanced .wide) .windows1252 declarations).1.size < 2 ^ 32 := by
    decide +kernel
  have hsize₂ : (assemble (.legacyChunked .compact) .windows1252 declarations).1.size < 2 ^ 32 := by
    decide +kernel
  have hlayout₁ : Layout.enhanced .wide ≠ .legacy := by decide
  have hlayout₂ : Layout.legacyChunked .compact ≠ .legacy := by decide
  have halike : Host.Alike (Eq : StillWorld → StillWorld → Prop) := by
    rintro c w _ rfl
    exact ⟨rfl, rfl⟩
  obtain ⟨p₁, p₂, h₁, h₂, hplay⟩ := layouts_play_alike wellFormed hlayout₁ hlayout₂ .windows1252
    .windows1252 hsize₁ hsize₂
  obtain rfl : p₁ = program := h₁.unique (gives_load_assemble hlayout₁ hroom hsize₁ .windows1252)
  obtain ⟨htold, hcalls, hsession, hmemory, hinstances⟩ :=
    hplay halike rfl 1 .standard .empty default default _ playWithin_idle
  obtain ⟨-, -, hvar, hpc⟩ := facts
  rw [← play_idle] at hvar hpc
  exact ⟨_, p₂, h₁, h₂, htold, hcalls, hsession, hmemory, hvar, hinstances, hpc⟩

end Detour

end Assembly

end LevelScript
