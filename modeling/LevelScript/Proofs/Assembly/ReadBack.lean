import Mathlib.Data.List.Permutation
import LevelScript.Proofs.Assembly.Instructions
import LevelScript.Proofs.Assembly.Program
import LevelScript.Proofs.Instruction.Longer
import LevelScript.Proofs.Sorting

/-!
# Bodies are read back

The code of one script or function, written as instructions with labels bound anywhere between.
Whatever else the module holds and whatever its layout is, reading the image from the body's entry
on gives these instructions one after another, up to the end of the body.

* `Written`: an instruction as it is written, and `Written.ReadAs`, what it is read as.
* `BoundAt`: the offset at which a label was bound.
* `Written.decode_of_stands`: one instruction is read back where its bytes stand.
* `body_reads_back`: all instructions of a body are read back.
-/

namespace LevelScript

/-- The instructions are read one after another, from an offset up to another one. -/
def Instruction.Consecutive (width : CodeWidth) (image : Image) :
    UInt32 → List Instruction → UInt32 → Prop
  | pc, [], stop => pc = stop
  | pc, inst :: rest, stop => decode width image pc = .ok inst ∧ inst.offset = pc ∧
      Consecutive width image inst.next rest stop

namespace Assembly

open Draft (headerLength)
open Instruction (layoutOf)

/-! ## Written instructions -/

/-- An operand as it is written. -/
inductive Argument where
  | word (v : Int32)
  /-- A word with the offset of a label. -/
  | target (label : Label)
  | index (v : UInt32)
  | raw (v : UInt8)
  /-- A count and that many bytes. -/
  | rawList (vs : List UInt8)
  deriving DecidableEq, Repr

namespace Argument

def items : Argument → List CodeItem
  | word v => [.word v]
  | target label => [.target label]
  | index v => [.index v]
  | raw v => [.byte v]
  | rawList vs => .byte vs.length.toUInt8 :: vs.map .byte

/-- The operand is of the kind. Compact code has a byte for an index, and a count is a byte. -/
def Fits (width : CodeWidth) : Argument → OperandKind → Prop
  | word _, .word | target _, .word | raw _, .raw => True
  | index v, .index => width = .compact → v ≤ 255
  | rawList vs, .rawList => vs.length ≤ 255
  | _, _ => False

/-- The numbers that the operand stands for. -/
def values (offsets : Label → UInt32) : Argument → List Int32
  | word v => [v]
  | target label => [(offsets label).toInt32]
  | index v => [v.toInt32]
  | raw v => [Int32.ofNat v.toNat]
  | rawList vs => Int32.ofNat vs.length :: vs.map fun v => Int32.ofNat v.toNat

end Argument

/-- An instruction as it is written. -/
inductive Written where
  /-- A number, which need not be an opcode, with its operands. -/
  | plain (number : UInt32) (arguments : List Argument)
  /-- A sorted case jump with its cases in any order. -/
  | cases (entries : List (Int32 × Label))
  deriving DecidableEq, Repr

/-- The cases in ascending order of their values. Those of one value stay in their order. -/
structure Ascending (given listed : List (Int32 × Label)) : Prop where
  perm : listed.Perm given
  sorted : listed.Pairwise fun e f => e.1 ≤ f.1
  stable : ∀ v, listed.filter (·.1 == v) = given.filter (·.1 == v)

namespace Written

def items : Written → List CodeItem
  | plain number arguments => .opcode number :: arguments.flatMap Argument.items
  | cases entries => [.cases entries]

/-- The operands are those of the number's layout, and compact code has room for the number. -/
def Fits (width : CodeWidth) : Written → Prop
  | plain number arguments => (width = .compact → number ≤ 4335) ∧
      List.Forall₂ (Argument.Fits width) arguments (layoutOf number)
  | cases _ => True

def number : Written → UInt32
  | plain number _ => number
  | cases _ => Opcode.caseGotoSorted.number

/-- The numbers that are read as the operands. A table is a count, then values and targets. -/
def Operands (offsets : Label → UInt32) : Written → List Int32 → Prop
  | plain _ arguments, vs => vs = arguments.flatMap (Argument.values offsets)
  | cases entries, vs => ∃ listed, Ascending entries listed ∧
      vs = Int32.ofNat entries.length ::
        listed.flatMap fun e => [e.1, (offsets e.2).toInt32]

/-- What the instruction is read as. -/
structure ReadAs (offsets : Label → UInt32) (w : Written) (inst : Instruction) : Prop where
  number : inst.number = w.number
  opcode : inst.opcode = Opcode.ofNumber? w.number
  operands : w.Operands offsets inst.operands.toList

end Written

/-! ## Operands -/

section Arguments

variable {image : Image} {width : CodeWidth} {labels : Label → UInt32}

/-- The place for an operand. -/
def Argument.place : Argument → Place
  | word _ => .word
  | target _ => .target
  | index _ => .index
  | raw _ => .raw
  | rawList _ => .rawList

theorem tokens_bytes (vs : List UInt8) : tokens (vs.map .byte) = vs.map .byte := by
  induction vs with
  | nil => rfl
  | cons v rest ih => exact congrArg _ ih

theorem Argument.Fits.kind {a : Argument} {kind : OperandKind} (h : a.Fits width kind) :
    a.place.kind = kind := by
  cases a <;> cases kind <;> first | rfl | exact h.elim

theorem Argument.Fits.reads (hsize : image.size < 2 ^ 32) {a : Argument} {kind : OperandKind}
    (h : a.Fits width kind) : Token.Reads image width labels a.place (tokens a.items) := by
  cases a with
  | word v => exact Token.reads_one (Token.readBy_word hsize v) fun _ => rfl
  | target label => exact Token.reads_one (Token.readBy_target hsize label) fun _ => rfl
  | raw v => exact Token.reads_one (Token.readBy_byte hsize v) fun _ => rfl
  | index v =>
    cases kind with
    | index => exact Token.reads_one (Token.readBy_index hsize h) fun _ => rfl
    | _ => exact h.elim
  | rawList vs =>
    cases kind with
    | rawList =>
      have hreads : Token.Reads image width labels .rawList
          (.byte vs.length.toUInt8 :: vs.map .byte) := Token.reads_rawList hsize h
      rwa [← tokens_bytes] at hreads
    | _ => exact h.elim

theorem toInt32_byte (v : UInt8) : v.toUInt32.toInt32 = Int32.ofNat v.toNat :=
  congrArg UInt32.toInt32 (UInt32.ofNat_uInt8ToNat v).symm

theorem Argument.Fits.values_eq {a : Argument} {kind : OperandKind} (h : a.Fits width kind) :
    (tokens a.items).flatMap (Token.values labels) = a.values labels := by
  cases a with
  | rawList vs =>
    cases kind with
    | rawList =>
      have hcount : vs.length.toUInt8.toNat = vs.length :=
        UInt8.toNat_ofNat_of_lt' (Nat.lt_succ_of_le h)
      show _ :: (tokens (vs.map .byte)).flatMap (Token.values labels) = _
      rw [tokens_bytes, toInt32_byte, hcount, Argument.values, List.flatMap_map,
        List.map_eq_flatMap]
      simp only [Token.values, toInt32_byte]
    | _ => exact h.elim
  | raw v => exact congrArg (fun x => [x]) (toInt32_byte v)
  | _ => rfl

/-- Operands are read back, wherever they stand. -/
theorem readsAll_arguments (hsize : image.size < 2 ^ 32) {arguments : List Argument}
    {kinds : List OperandKind} (h : List.Forall₂ (Argument.Fits width) arguments kinds) :
    Token.ReadsAll image width labels (arguments.map Argument.place)
        (tokens (arguments.flatMap Argument.items)) ∧
      (arguments.map Argument.place).map Place.kind = kinds ∧
      (tokens (arguments.flatMap Argument.items)).flatMap (Token.values labels) =
        arguments.flatMap (Argument.values labels) := by
  induction h with
  | nil => exact ⟨Token.readsAll_of_fills hsize .nil, rfl, rfl⟩
  | @cons a kind arguments kinds hfits _ ih =>
    obtain ⟨hreads, hkinds, hvalues⟩ := ih
    rw [List.flatMap_cons, tokens_append, List.flatMap_append, List.flatMap_cons, hvalues,
      hfits.values_eq]
    refine ⟨(hfits.reads hsize).cons hreads, ?_, rfl⟩
    rw [List.map_cons, List.map_cons, hkinds, hfits.kind]

/-- The operands of a number are read after it. -/
theorem read_arguments (hsize : image.size < 2 ^ 32) {arguments : List Argument}
    {kinds : List OperandKind} (h : List.Forall₂ (Argument.Fits width) arguments kinds)
    {place : Nat} (hstands : image.Stands place
      (Token.spell width labels place (tokens (arguments.flatMap Argument.items)))) :
    LevelScript.Operands.read width image kinds place.toUInt32 =
      ⟨(arguments.flatMap (Argument.values labels)).toArray,
        (Token.reach width place (tokens (arguments.flatMap Argument.items))).toUInt32, none⟩ := by
  obtain ⟨hreads, hkinds, hvalues⟩ := readsAll_arguments hsize h
  have hread := hreads place #[] hstands
  rw [Token.readPlaces, hkinds, hvalues] at hread
  rw [LevelScript.Operands.read, hread]
  simp

end Arguments

/-! ## One instruction -/

theorem ascending_mergeSort (entries : List (Int32 × Label)) :
    Ascending entries (entries.mergeSort fun e f => e.1 ≤ f.1) where
  perm := List.mergeSort_perm entries _
  sorted := pairwise_mergeSort_key Prod.fst entries
  stable := filter_mergeSort_key Prod.fst entries

section Instructions

variable {image : Image} {width : CodeWidth} {labels : Label → UInt32}

/-- The table of a sorted case jump is read after its number. -/
theorem read_cases (hsize : image.size < 2 ^ 32) (entries : List (Int32 × Label)) {place : Nat}
    (hstands : image.Stands place (Token.spell width labels place
      (.align :: .word (Int32.ofNat entries.length) :: entries.flatMap Token.entry))) :
    LevelScript.Operands.read width image [.caseTable] place.toUInt32 =
      ⟨(Int32.ofNat entries.length ::
          entries.flatMap fun e => [e.1, (labels e.2).toInt32]).toArray,
        (Token.reach width place
          (.align :: .word (Int32.ofNat entries.length) :: entries.flatMap Token.entry)).toUInt32,
        none⟩ := by
  have hread := Token.reads_cases hsize entries place #[] hstands
  have hvalues : (entries.flatMap Token.entry).flatMap (Token.values labels) =
      entries.flatMap fun e => [e.1, (labels e.2).toInt32] := by
    rw [List.flatMap_assoc]
    rfl
  show LevelScript.Operands.readKind width image ⟨#[], place.toUInt32, none⟩ Place.cases.kind = _
  rw [hread]
  simp [Token.values, hvalues]

/-- An instruction is read back where its bytes stand. -/
theorem Written.decode_of_stands (hsize : image.size < 2 ^ 32) {w : Written} (h : w.Fits width)
    {place : Nat}
    (hstands : image.Stands place (Token.spell width labels place (tokens w.items))) :
    ∃ inst, Instruction.decode width image place.toUInt32 = .ok inst ∧
      inst.offset = place.toUInt32 ∧
      inst.next = (Token.reach width place (tokens w.items)).toUInt32 ∧ w.ReadAs labels inst := by
  cases w with
  | plain number arguments =>
    have htokens : tokens (items (plain number arguments)) =
        .opcode number :: tokens (arguments.flatMap Argument.items) := rfl
    rw [htokens, Token.spell, Image.stands_append, Token.length_bytes] at hstands
    obtain ⟨hnumber, harguments⟩ := hstands
    have hread := read_arguments hsize h.2 harguments
    have hdecode := Instruction.decode_of_read (Code.readNumber_of_stands hsize h.1 hnumber) hread
    refine ⟨_, hdecode, rfl, ?_, ?_⟩
    · rw [htokens]
      rfl
    · exact { number := rfl, opcode := by simp only [Written.number], operands := rfl }
  | cases entries =>
    obtain ⟨listed, hlisted⟩ : ∃ listed, entries.mergeSort (fun e f => e.1 ≤ f.1) = listed :=
      ⟨_, rfl⟩
    have hascending : Ascending entries listed := hlisted ▸ ascending_mergeSort entries
    have htokens : tokens (items (cases entries)) = .opcode Opcode.caseGotoSorted.number ::
        .align :: .word (Int32.ofNat listed.length) :: listed.flatMap Token.entry := by
      rw [← hlisted]
      exact List.append_nil _
    rw [htokens, Token.spell, Image.stands_append, Token.length_bytes] at hstands
    obtain ⟨hnumber, htable⟩ := hstands
    rw [htokens]
    have hread := read_cases hsize listed htable
    have hsmall : width = .compact → Opcode.caseGotoSorted.number ≤ 4335 := fun _ => by decide
    have hlayout : layoutOf Opcode.caseGotoSorted.number = [.caseTable] := by decide +kernel
    rw [← hlayout] at hread
    have hdecode :=
      Instruction.decode_of_read (Code.readNumber_of_stands hsize hsmall hnumber) hread
    refine ⟨_, hdecode, rfl, rfl, ?_⟩
    exact { number := rfl, opcode := by simp only [Written.number],
            operands := ⟨listed, hascending, by rw [hascending.perm.length_eq]⟩ }

/-- Instructions are read back one after another. -/
theorem exists_consecutive (hsize : image.size < 2 ^ 32) {written : List Written}
    (h : ∀ w ∈ written, w.Fits width) {place : Nat}
    (hstands : image.Stands place
      (Token.spell width labels place (tokens (written.flatMap Written.items)))) :
    ∃ listing, Instruction.Consecutive width image place.toUInt32 listing
        (Token.reach width place (tokens (written.flatMap Written.items))).toUInt32 ∧
      List.Forall₂ (Written.ReadAs labels) written listing := by
  induction written generalizing place with
  | nil => exact ⟨[], rfl, .nil⟩
  | cons w rest ih =>
    rw [List.flatMap_cons, tokens_append, Token.spell_append, Image.stands_append,
      Token.length_spell] at hstands
    obtain ⟨inst, hdecode, hoffset, hnext, hread⟩ :=
      Written.decode_of_stands hsize (h w List.mem_cons_self) hstands.1
    obtain ⟨listing, hlisting, hreads⟩ :=
      ih (fun w hw => h w (List.mem_cons_of_mem _ hw)) hstands.2
    rw [List.flatMap_cons, tokens_append, Token.reach_append]
    exact ⟨inst :: listing, ⟨hdecode, hoffset, hnext ▸ hlisting⟩, .cons hread hreads⟩

end Instructions

/-! ## Bodies in images -/

/-- Where a body's bytes stand in the image, the first bytes of the image hold them too. -/
theorem stands_take {image : Image} {place stop : Nat} {xs : List UInt8}
    (h : image.Stands place xs) (hstop : place + xs.length ≤ stop) :
    Image.Stands (image.extract 0 stop) place xs := by
  unfold Image.Stands at h ⊢
  rw [Array.toList_extract, List.extract_eq_take_drop, List.drop_zero, Nat.sub_zero,
    List.drop_take, List.prefix_take_iff]
  exact ⟨h, by omega⟩

theorem consecutive_mono {image whole : Image} (hwhole : image.toList <+: whole.toList)
    {width : CodeWidth} {listing : List Instruction} {pc stop : UInt32}
    (h : Instruction.Consecutive width image pc listing stop) :
    Instruction.Consecutive width whole pc listing stop := by
  induction listing generalizing pc with
  | nil => exact h
  | cons inst rest ih =>
    obtain ⟨hdecode, hoffset, hrest⟩ := h
    exact ⟨Instruction.decode_mono hwhole hdecode, hoffset, ih hrest⟩

/-- The code stands behind the header in every layout. -/
theorem Draft.Holds.stands_spell {d : Draft} {items : List CodeItem} (h : d.Holds items)
    (encoding : Text.Encoding) (layout : Layout) :
    (d.image encoding layout).Stands headerLength
      (Token.spell d.width d.labelOffset headerLength (tokens items)) := by
  by_cases hlayout : layout = .legacy
  · have hstands : ∀ (xs ys : List UInt8) (tag : UInt8) (w : UInt32),
        (withHeader (d.resolved ++ xs ++ ys) tag w).Stands headerLength
          (Token.spell d.width d.labelOffset headerLength (tokens items)) := by
      intro xs ys tag w
      have hresolved : (d.resolved ++ xs ++ ys).toList = List.replicate headerLength 0 ++
          (Token.spell d.width d.labelOffset headerLength (tokens items) ++ (xs ++ ys)) := by
        simp only [Array.toList_appendList, h.resolved, List.append_assoc]
      have himage := Image.stands_of_toList (withHeader_toList hresolved tag w)
      exact (Image.stands_append.mp (Image.stands_append.mp himage).2).1
    rw [hlayout]
    exact hstands _ _ _ _
  · exact (h.stands hlayout encoding).1

/-! ## Labels -/

def CodeItem.isLabel : CodeItem → Bool
  | .bind _ => true
  | _ => false

/-- The label was bound last at the offset. -/
def BoundAt (width : CodeWidth) (code : List CodeItem) (label : Label) (offset : UInt32) : Prop :=
  ∃ before after, code = before ++ .bind label :: after ∧ .bind label ∉ after ∧
    offset = ((Draft.empty width).emitCode before).here

/-- Labels take no room. -/
theorem tokens_filter (code : List CodeItem) : tokens (code.filter (!·.isLabel)) = tokens code := by
  induction code with
  | nil => rfl
  | cons item rest ih =>
    cases item with
    | bind label => exact ih
    | _ => exact congrArg (_ ++ ·) ih

theorem here_emitCode (width : CodeWidth) (code : List CodeItem) :
    ((Draft.empty width).emitCode code).here =
      (Token.reach width headerLength (tokens code)).toUInt32 := by
  have hholds := (Draft.holds_empty width).emitCode code
  rw [Draft.here, hholds.spells.size, Draft.emitCode_keeps]
  rfl

theorem here_ofDeclarations (width : CodeWidth) (declarations : List Declaration) :
    (Draft.ofDeclarations width declarations).here =
      (Token.reach width headerLength (tokens (moduleCode declarations))).toUInt32 := by
  rw [Draft.here, (Draft.holds_ofDeclarations width declarations).spells.size,
    Draft.ofDeclarations_width]

theorem exists_last_bind {code : List CodeItem} {label : Label} (h : .bind label ∈ code) :
    ∃ before after, code = before ++ .bind label :: after ∧ .bind label ∉ after := by
  induction code with
  | nil => simp at h
  | cons item rest ih =>
    by_cases hrest : .bind label ∈ rest
    · obtain ⟨before, after, rfl, hafter⟩ := ih hrest
      exact ⟨item :: before, after, rfl, hafter⟩
    · obtain rfl | hmem := List.mem_cons.mp h
      · exact ⟨[], rest, rfl, hrest⟩
      · exact absurd hmem hrest

theorem boundAt_labelOffset (width : CodeWidth) {declarations : List Declaration} {label : Label}
    (h : .bind label ∈ moduleCode declarations) :
    BoundAt width (moduleCode declarations) label
      ((Draft.ofDeclarations width declarations).labelOffset label) := by
  obtain ⟨before, after, hcode, hafter⟩ := exists_last_bind h
  have hlookup := (Draft.holds_ofDeclarations width declarations).labels hcode hafter
  refine ⟨before, after, hcode, hafter, ?_⟩
  rw [Draft.labelOffset, hlookup, here_emitCode, Draft.ofDeclarations_width]
  rfl

/-! ## Bodies are read back -/

/-- A body whose items, labels apart, are written instructions is read back from the image of its
module: from where it starts up to where it ends, instruction by instruction. Operands that name a
label are the offset at which the label was bound, and cases are listed in ascending order. Offsets
have 32 bits, so the body has to end below `2 ^ 32`. -/
theorem body_reads_back (layout : Layout) (encoding : Text.Encoding)
    (before after : List Declaration) {body : Declaration} {written : List Written}
    (hbody : body.code.filter (!·.isLabel) = written.flatMap Written.items)
    (hfits : ∀ w ∈ written, w.Fits layout.codeWidth)
    (hend : (Draft.ofDeclarations layout.codeWidth (before ++ [body])).code.size < 2 ^ 32) :
    let declarations := before ++ body :: after
    ∃ (offsets : Label → UInt32) (listing : List Instruction),
      (∀ label, .bind label ∈ moduleCode declarations →
        BoundAt layout.codeWidth (moduleCode declarations) label (offsets label)) ∧
      Instruction.Consecutive layout.codeWidth (assemble layout encoding declarations).1
        (Draft.ofDeclarations layout.codeWidth before).here listing
        (Draft.ofDeclarations layout.codeWidth (before ++ [body])).here ∧
      List.Forall₂ (Written.ReadAs offsets) written listing := by
  intro declarations
  let d := Draft.ofDeclarations layout.codeWidth declarations
  have htokens : tokens body.code = tokens (written.flatMap Written.items) := by
    rw [← hbody, tokens_filter]
  have hsplit : tokens (moduleCode declarations) = tokens (moduleCode before) ++
      (tokens (written.flatMap Written.items) ++ tokens (moduleCode after)) := by
    rw [← htokens, ← tokens_append, ← tokens_append]
    simp [declarations, moduleCode]
  have hupto : tokens (moduleCode (before ++ [body])) = tokens (moduleCode before) ++
      tokens (written.flatMap Written.items) := by
    rw [← htokens, ← tokens_append]
    simp [moduleCode]
  have hholds := Draft.holds_ofDeclarations layout.codeWidth declarations
  have hcode := hholds.stands_spell encoding layout
  rw [Draft.ofDeclarations_width, hsplit, Token.spell_append, Token.spell_append,
    Image.stands_append, Image.stands_append, Token.length_spell] at hcode
  obtain ⟨-, hstands, -⟩ := hcode
  rw [(Draft.holds_ofDeclarations layout.codeWidth (before ++ [body])).spells.size,
    Draft.ofDeclarations_width, hupto, Token.reach_append] at hend
  generalize hstop : Token.reach layout.codeWidth
    (Token.reach layout.codeWidth headerLength (tokens (moduleCode before)))
    (tokens (written.flatMap Written.items)) = stop at hend
  -- The image may be longer than offsets reach, but not up to the end of the body.
  have hfront := stands_take hstands (Nat.le_of_eq ((Token.length_spell _).trans hstop))
  have hsize : ((d.image encoding layout).extract 0 stop).size < 2 ^ 32 := by
    rw [Array.size_extract]
    omega
  obtain ⟨listing, hlisting, hread⟩ := exists_consecutive hsize hfits hfront
  refine ⟨d.labelOffset, listing, fun label => boundAt_labelOffset layout.codeWidth, ?_, hread⟩
  rw [here_ofDeclarations, here_ofDeclarations, hupto, Token.reach_append]
  refine consecutive_mono ?_ hlisting
  rw [Array.toList_extract, List.extract_eq_take_drop, List.drop_zero]
  exact List.take_prefix _ _

/-! ## A body with a table -/

namespace Shuffled

/-- Code of another script, which is no whole instruction. -/
def before : List Declaration := [.script 1 0 0 [.opcode Opcode.pushNumber.number, .byte 7]]

/-- A number that is no opcode, a list of bytes, cases out of order, a jump back to the start, and
a variable with a high index. -/
def written : List Written :=
  [.plain 105 [], .plain Opcode.pushByteList.number [.rawList [8, 9]], .cases [(7, 1), (3, 0)],
    .plain Opcode.goto.number [.target 0], .plain (Opcode.pushVar .map).number [.index 200]]

def body : Declaration :=
  .script 2 0 0 [.bind 0, .opcode 105, .op .pushByteList, .byte 2, .byte 8, .byte 9,
    .cases [(7, 1), (3, 0)], .op .goto, .target 0, .bind 1, .op (.pushVar .map), .index 200]

theorem written_fits : ∀ w ∈ written, w.Fits .compact := by
  have hlayouts : layoutOf 105 = [] ∧ layoutOf Opcode.pushByteList.number = [.rawList] ∧
      layoutOf Opcode.goto.number = [.word] ∧ layoutOf (Opcode.pushVar .map).number = [.index] := by
    decide +kernel
  obtain ⟨hunknown, hbytes, hgoto, hindex⟩ := hlayouts
  simp only [written, List.forall_mem_cons, Written.Fits, hunknown, hbytes, hgoto, hindex,
    List.forall₂_cons, List.forall₂_nil_left_iff, Argument.Fits, List.not_mem_nil, false_implies,
    implies_true]
  decide

/-- In compact code the table is padded, and its cases are in order. -/
theorem body_reads_back_shuffled :
    ∃ (offsets : Label → UInt32) (listing : List Instruction),
      BoundAt .compact (moduleCode (before ++ [body])) 0 (offsets 0) ∧
      BoundAt .compact (moduleCode (before ++ [body])) 1 (offsets 1) ∧
      Instruction.Consecutive .compact
        (assemble (.legacyChunked .compact) .utf8 (before ++ [body])).1 10 listing 47 ∧
      List.Forall₂ (Written.ReadAs offsets) written listing := by
  have hbody : body.code.filter (!·.isLabel) = written.flatMap Written.items := by decide +kernel
  have hend : (Draft.ofDeclarations .compact (before ++ [body])).code.size < 2 ^ 32 := by cbv
  have hstart : (Draft.ofDeclarations .compact before).here = 10 := by decide +kernel
  have hstop : (Draft.ofDeclarations .compact (before ++ [body])).here = 47 := by cbv
  obtain ⟨offsets, listing, hbound, hlisting, hread⟩ :=
    body_reads_back (.legacyChunked .compact) .utf8 before [] hbody written_fits hend
  rw [show Layout.codeWidth (.legacyChunked .compact) = .compact from rfl, hstart, hstop]
    at hlisting
  exact ⟨offsets, listing, hbound 0 (by decide +kernel), hbound 1 (by decide +kernel), hlisting,
    hread⟩

end Shuffled

end Assembly

end LevelScript
