import Mathlib.Data.List.Basic
import Mathlib.Tactic.Common
import LevelScript.Assembly.Image

/-!
# The bytes of assembled code

All code of a module is one list of tokens: what takes room in the image, with tables spelled out.
A token's bytes depend on where it stands only if they are padding, and on labels only if it is an
offset. So offsets follow from the tokens in front, and the code with its labels filled in is the
bytes of one token after another.

* `Token.spell`: the bytes of tokens from a place on, and `Token.reach`, the place after them.
* `Draft.Holds`: a draft has the code of the given items.
* `Draft.Holds.resolved`: filling in labels gives the bytes with the offsets of labels in them.
-/

namespace LevelScript.Assembly

/-! ## Tokens -/

/-- A piece of code that takes room in the image. -/
inductive Token where
  | opcode (number : UInt32)
  | word (v : Int32)
  | byte (v : UInt8)
  | index (v : UInt32)
  | align
  | target (label : Label)
  deriving DecidableEq, Repr

/-- A value and a target of a case table. -/
def Token.entry (e : Int32 × Label) : List Token := [.word e.1, .target e.2]

/-- The tokens of an item. A label takes no room; a case jump is an opcode with its table. -/
def CodeItem.tokens : CodeItem → List Token
  | .opcode number => [.opcode number]
  | .word v => [.word v]
  | .byte v => [.byte v]
  | .index v => [.index v]
  | .align => [.align]
  | .bind _ => []
  | .target label => [.target label]
  | .cases entries =>
    let sorted := entries.mergeSort fun e f => e.1 ≤ f.1
    [.opcode Opcode.caseGotoSorted.number, .align, .word (Int32.ofNat sorted.length)] ++
      sorted.flatMap Token.entry

/-- The tokens of code. -/
def tokens (code : List CodeItem) : List Token := code.flatMap CodeItem.tokens

theorem tokens_append (xs ys : List CodeItem) : tokens (xs ++ ys) = tokens xs ++ tokens ys :=
  List.flatMap_append

namespace Token

/-- The bytes of a token that starts at a place, once labels have offsets. -/
def bytes (width : CodeWidth) (labels : Label → UInt32) (place : Nat) : Token → List UInt8
  | opcode number => Draft.opcodeBytes width number
  | word v => Bytes.le32 v.toUInt32
  | byte v => [v]
  | index v => Draft.indexBytes width v
  | align => List.replicate ((4 - place % 4) % 4) 0
  | target label => Bytes.le32 (labels label)

/-- How many bytes a token takes at a place. -/
def size (width : CodeWidth) (place : Nat) (t : Token) : Nat :=
  (t.bytes width (fun _ => 0) place).length

/-- The bytes of tokens from a place on. -/
def spell (width : CodeWidth) (labels : Label → UInt32) : Nat → List Token → List UInt8
  | _, [] => []
  | place, t :: rest =>
    t.bytes width labels place ++ spell width labels (place + t.size width place) rest

/-- The place after tokens that start at a place. -/
def reach (width : CodeWidth) (place : Nat) (ts : List Token) : Nat :=
  ts.foldl (fun place t => place + t.size width place) place

/-- Where the offset of a label stands, if the token is one. -/
def gap (place : Nat) : Token → List (Nat × Label)
  | target label => [(place, label)]
  | _ => []

/-- Where offsets of labels stand, in tokens from a place on. -/
def gaps (width : CodeWidth) : Nat → List Token → List (Nat × Label)
  | _, [] => []
  | place, t :: rest => t.gap place ++ gaps width (place + t.size width place) rest

variable {width : CodeWidth} {labels : Label → UInt32} {place : Nat}

theorem length_bytes (t : Token) : (t.bytes width labels place).length = t.size width place := by
  cases t <;> rfl

theorem length_spell (ts : List Token) :
    place + (spell width labels place ts).length = reach width place ts := by
  induction ts generalizing place with
  | nil => rfl
  | cons t rest ih =>
    rw [spell, List.length_append, length_bytes, ← Nat.add_assoc, ih]
    rfl

theorem reach_append (xs ys : List Token) :
    reach width place (xs ++ ys) = reach width (reach width place xs) ys :=
  List.foldl_append

theorem le_reach (ts : List Token) : place ≤ reach width place ts := by
  have h : place + (spell width (fun _ => 0) place ts).length = reach width place ts :=
    length_spell ts
  omega

theorem spell_append (xs ys : List Token) : spell width labels place (xs ++ ys) =
    spell width labels place xs ++ spell width labels (reach width place xs) ys := by
  induction xs generalizing place with
  | nil => rfl
  | cons t rest ih =>
    rw [List.cons_append, spell, spell, ih, List.append_assoc]
    rfl

theorem gaps_append (xs ys : List Token) : gaps width place (xs ++ ys) =
    gaps width place xs ++ gaps width (reach width place xs) ys := by
  induction xs generalizing place with
  | nil => rfl
  | cons t rest ih =>
    rw [List.cons_append, gaps, gaps, ih, List.append_assoc]
    rfl

end Token

/-! ## Drafts -/

namespace Draft

/-- Appends a token, with no offsets in it yet. -/
def emitToken (d : Draft) (t : Token) : Draft :=
  { d with
    code := d.code ++ t.bytes d.width (fun _ => 0) d.code.size
    fixups := t.gap d.code.size ++ d.fixups }

theorem emitCase_eq (d : Draft) (e : Int32 × Label) :
    d.emitCase e = (Token.entry e).foldl emitToken d := rfl

theorem foldl_emitCase (d : Draft) (entries : List (Int32 × Label)) :
    entries.foldl emitCase d = (entries.flatMap Token.entry).foldl emitToken d := by
  induction entries generalizing d with
  | nil => rfl
  | cons e rest ih =>
    rw [List.foldl_cons, ih, emitCase_eq, List.flatMap_cons, List.foldl_append]

/-- An item that is no label is its tokens. -/
theorem emitItem_eq (d : Draft) {item : CodeItem} (h : ∀ label, item ≠ .bind label) :
    d.emitItem item = item.tokens.foldl emitToken d := by
  cases item with
  | bind label => exact absurd rfl (h label)
  | cases entries =>
    rw [CodeItem.tokens, List.foldl_append]
    exact foldl_emitCase _ _
  | _ => rfl

/-- The draft's code is the tokens, with no offsets in it yet. -/
structure Spells (d : Draft) (ts : List Token) : Prop where
  code : d.code.toList = List.replicate headerLength 0 ++
    Token.spell d.width (fun _ => 0) headerLength ts
  gaps : d.fixups.reverse = Token.gaps d.width headerLength ts

theorem Spells.size {d : Draft} {ts : List Token} (h : d.Spells ts) :
    d.code.size = Token.reach d.width headerLength ts := by
  rw [← Array.length_toList, h.code, List.length_append, List.length_replicate,
    Token.length_spell]

theorem Spells.emitToken {d : Draft} {ts : List Token} (h : d.Spells ts) (t : Token) :
    (d.emitToken t).Spells (ts ++ [t]) where
  code := by
    show (d.code ++ t.bytes d.width (fun _ => 0) d.code.size).toList = _
    rw [Array.toList_appendList, h.code, h.size, Token.spell_append, List.append_assoc]
    simp [Token.spell, Draft.emitToken]
  gaps := by
    show (t.gap d.code.size ++ d.fixups).reverse = _
    have hgap : (t.gap d.code.size).reverse = t.gap d.code.size := by cases t <;> rfl
    rw [List.reverse_append, hgap, h.gaps, h.size, Token.gaps_append]
    simp [Token.gaps, Draft.emitToken]

/-- What appending tokens leaves as it was. -/
theorem foldl_emitToken_eq (d : Draft) (ts : List Token) :
    ts.foldl emitToken d =
      { d with code := (ts.foldl emitToken d).code, fixups := (ts.foldl emitToken d).fixups } := by
  induction ts generalizing d with
  | nil => rfl
  | cons t rest ih =>
    rw [List.foldl_cons, ih]
    rfl

theorem Spells.foldl_emitToken {d : Draft} {ts : List Token} (h : d.Spells ts) (us : List Token) :
    (us.foldl Draft.emitToken d).Spells (ts ++ us) := by
  induction us generalizing d ts with
  | nil => exact (List.append_nil ts).symm ▸ h
  | cons t rest ih =>
    have hstep := ih (h.emitToken t)
    rwa [List.append_assoc] at hstep

/-- The draft has the code of the items. A label stands for where it was bound last. -/
structure Holds (d : Draft) (items : List CodeItem) : Prop where
  spells : d.Spells (tokens items)
  labels : ∀ {label before after}, items = before ++ .bind label :: after →
    .bind label ∉ after → d.labels.lookup label =
      some (Token.reach d.width headerLength (tokens before)).toUInt32

theorem holds_empty (width : CodeWidth) : (empty width).Holds [] where
  spells := ⟨rfl, rfl⟩
  labels h := by simp at h

/-- Where an item stands in a list that got one more at its end. -/
theorem snoc_eq_split {items before after : List CodeItem} {item x : CodeItem}
    (h : items ++ [item] = before ++ x :: after) :
    (after = [] ∧ items = before ∧ item = x) ∨
      ∃ front, after = front ++ [item] ∧ items = before ++ x :: front := by
  obtain rfl | ⟨front, last, rfl⟩ := after.eq_nil_or_concat'
  · obtain ⟨hitems, hlast⟩ := List.append_inj' h rfl
    exact .inl ⟨rfl, hitems, List.singleton_injective hlast⟩
  · rw [← List.cons_append, ← List.append_assoc] at h
    obtain ⟨hitems, hlast⟩ := List.append_inj' h rfl
    rw [List.singleton_injective hlast]
    exact .inr ⟨front, rfl, hitems⟩

theorem Holds.emitItem {d : Draft} {items : List CodeItem} (h : d.Holds items)
    (item : CodeItem) : (d.emitItem item).Holds (items ++ [item]) := by
  have htokens : tokens (items ++ [item]) = tokens items ++ item.tokens := by
    rw [tokens_append]
    simp [tokens]
  by_cases hitem : ∃ bound, item = .bind bound
  · obtain ⟨bound, rfl⟩ := hitem
    refine ⟨?_, fun {label before after} heq hafter => ?_⟩
    · rw [htokens]
      exact (List.append_nil (tokens items)).symm ▸ ⟨h.spells.code, h.spells.gaps⟩
    · show ((bound, d.here) :: d.labels).lookup label = _
      obtain ⟨rfl, rfl, hlabel⟩ | ⟨front, rfl, hitems⟩ := snoc_eq_split heq
      · obtain rfl : bound = label := CodeItem.bind.inj hlabel
        rw [List.lookup_cons_self, here, h.spells.size]
        rfl
      · have hne : (label == bound) = false := by
          refine beq_false_of_ne fun hl => hafter ?_
          simp [hl]
        rw [List.lookup_cons, hne]
        exact h.labels hitems fun hmem => hafter (List.mem_append_left _ hmem)
  · rw [emitItem_eq d fun label heq => hitem ⟨label, heq⟩]
    refine ⟨htokens ▸ h.spells.foldl_emitToken _, fun heq hafter => ?_⟩
    obtain ⟨-, -, hlabel⟩ | ⟨front, rfl, hitems⟩ := snoc_eq_split heq
    · exact absurd ⟨_, hlabel⟩ hitem
    · rw [foldl_emitToken_eq]
      exact h.labels hitems fun hmem => hafter (List.mem_append_left _ hmem)

theorem Holds.emitCode {d : Draft} {items : List CodeItem} (h : d.Holds items)
    (code : List CodeItem) : (d.emitCode code).Holds (items ++ code) := by
  unfold Draft.emitCode
  induction code generalizing d items with
  | nil => exact (List.append_nil items).symm ▸ h
  | cons item rest ih =>
    have hstep := ih (h.emitItem item)
    rwa [List.append_assoc] at hstep

/-- What appending an item leaves as it was. -/
theorem emitItem_keeps (d : Draft) (item : CodeItem) :
    d.emitItem item = { d with
      code := (d.emitItem item).code
      labels := (d.emitItem item).labels
      fixups := (d.emitItem item).fixups } := by
  by_cases hitem : ∃ bound, item = .bind bound
  · obtain ⟨bound, rfl⟩ := hitem
    rfl
  · rw [emitItem_eq d fun label heq => hitem ⟨label, heq⟩, foldl_emitToken_eq]

theorem emitCode_keeps (d : Draft) (code : List CodeItem) :
    d.emitCode code = { d with
      code := (d.emitCode code).code
      labels := (d.emitCode code).labels
      fixups := (d.emitCode code).fixups } := by
  unfold emitCode
  induction code generalizing d with
  | nil => rfl
  | cons item rest ih => rw [List.foldl_cons, ih, emitItem_keeps]

end Draft

/-! ## Modules -/

/-- The code that comes with a declaration. -/
def Declaration.code : Declaration → List CodeItem
  | .script _ _ _ code => code
  | .define _ code => code
  | _ => []

/-- All code of a module. -/
def moduleCode (declarations : List Declaration) : List CodeItem :=
  declarations.flatMap Declaration.code

namespace Draft

theorem declare_width (d : Draft) (decl : Declaration) : (d.declare decl).width = d.width := by
  cases decl <;> first | rfl | (rw [declare, emitCode_keeps])

theorem Holds.declare {d : Draft} {items : List CodeItem} (h : d.Holds items)
    (decl : Declaration) : (d.declare decl).Holds (items ++ decl.code) := by
  have hkeep : ∀ d' : Draft, d'.width = d.width → d'.code = d.code → d'.labels = d.labels →
      d'.fixups = d.fixups → d'.Holds items := by
    intro d' hwidth hcode hlabels hfixups
    refine ⟨⟨?_, ?_⟩, fun heq hafter => ?_⟩
    · rw [hcode, hwidth, h.spells.code]
    · rw [hfixups, hwidth, h.spells.gaps]
    · rw [hlabels, hwidth, h.labels heq hafter]
  cases decl with
  | script number typeTag argCount code =>
    refine Holds.emitCode ?_ code
    exact hkeep _ rfl rfl rfl rfl
  | define function code =>
    refine Holds.emitCode ?_ code
    exact hkeep _ rfl rfl rfl rfl
  | _ => exact (List.append_nil items).symm ▸ hkeep _ rfl rfl rfl rfl

theorem holds_foldl_declare {d : Draft} {items : List CodeItem} (h : d.Holds items)
    (declarations : List Declaration) :
    (declarations.foldl Draft.declare d).Holds (items ++ moduleCode declarations) := by
  induction declarations generalizing d items with
  | nil => exact (List.append_nil items).symm ▸ h
  | cons decl rest ih =>
    have hstep := ih (h.declare decl)
    rwa [List.append_assoc] at hstep

theorem holds_ofDeclarations (width : CodeWidth) (declarations : List Declaration) :
    (ofDeclarations width declarations).Holds (moduleCode declarations) :=
  holds_foldl_declare (holds_empty width) declarations

theorem foldl_declare_width (d : Draft) (declarations : List Declaration) :
    (declarations.foldl declare d).width = d.width := by
  induction declarations generalizing d with
  | nil => rfl
  | cons decl rest ih => rw [List.foldl_cons, ih, declare_width]

@[simp] theorem ofDeclarations_width (width : CodeWidth) (declarations : List Declaration) :
    (ofDeclarations width declarations).width = width :=
  foldl_declare_width (empty width) declarations

end Draft

/-! ## Filling in labels -/

/-- Bytes take the place of as many others. -/
theorem overwrite_toList {image : Image} {front old back : List UInt8} {offset : Nat}
    (himage : image.toList = front ++ old ++ back) (hfront : front.length = offset)
    {new : List UInt8} (hnew : new.length = old.length) :
    (overwrite image offset new).toList = front ++ new ++ back := by
  unfold overwrite
  induction new generalizing image front old offset with
  | nil =>
    obtain rfl : old = [] := List.length_eq_zero_iff.mp hnew.symm
    exact himage
  | cons b rest ih =>
    obtain ⟨o, old, rfl⟩ := List.exists_cons_of_length_eq_add_one hnew.symm
    have hset : (image.setIfInBounds offset b).toList = (front ++ [b]) ++ old ++ back := by
      rw [Array.toList_setIfInBounds, himage, ← hfront]
      simp
    have hlength : (front ++ [b]).length = offset + 1 := by simp [hfront]
    have hstep := ih hset hlength (by simpa using hnew)
    simpa using hstep

/-- Offsets are written where the labels stand. -/
theorem foldl_overwrite_gaps {width : CodeWidth} {labels : Label → UInt32} {ts : List Token}
    {image : Image} {front back : List UInt8} {place : Nat}
    (himage : image.toList = front ++ Token.spell width (fun _ => 0) place ts ++ back)
    (hfront : front.length = place) :
    ((Token.gaps width place ts).foldl
      (fun code gap => overwrite code gap.1 (Bytes.le32 (labels gap.2))) image).toList =
        front ++ Token.spell width labels place ts ++ back := by
  induction ts generalizing image front place with
  | nil => exact himage
  | cons t rest ih =>
    have hstep : ((t.gap place).foldl
        (fun code gap => overwrite code gap.1 (Bytes.le32 (labels gap.2))) image).toList =
        (front ++ t.bytes width labels place) ++
          Token.spell width (fun _ => 0) (place + t.size width place) rest ++ back := by
      rw [Token.spell, ← List.append_assoc front, List.append_assoc _ _ back] at himage
      cases t with
      | target label =>
        rw [List.append_assoc _ _ back]
        exact overwrite_toList himage hfront rfl
      | _ =>
        rw [List.append_assoc _ _ back]
        exact himage
    rw [Token.gaps, List.foldl_append,
      ih hstep (by rw [List.length_append, hfront, Token.length_bytes]), Token.spell]
    simp

/-- The code of a module, with labels filled in. -/
theorem Draft.Holds.resolved {d : Draft} {items : List CodeItem} (h : d.Holds items) :
    d.resolved.toList = List.replicate headerLength 0 ++
      Token.spell d.width d.labelOffset headerLength (tokens items) := by
  have hcode : d.code.toList = List.replicate headerLength 0 ++
      Token.spell d.width (fun _ => 0) headerLength (tokens items) ++ [] := by
    rw [h.spells.code, List.append_nil]
  unfold Draft.resolved
  rw [h.spells.gaps, foldl_overwrite_gaps hcode (List.length_replicate ..), List.append_nil]

end LevelScript.Assembly
