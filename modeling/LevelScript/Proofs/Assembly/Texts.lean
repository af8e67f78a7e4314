import LevelScript.Proofs.Assembly.Declared
import LevelScript.Proofs.Image.Accepted
import LevelScript.Proofs.Text.Literals

/-!
# Texts of a module

A module declares texts of the neutral language one by one and those of other languages as whole
tables; a later table replaces an earlier one. A text is looked up in the locale, in English and in
the neutral language. What is found in the loaded image is what is found in the declarations.

* `declaredTexts`, `declaredText?`: the texts of a language, and looking up one of them.
* `Draft.tables_ofDeclarations`: the tables of a draft have the declared texts.
* `lookup_strings`: looking up in what was read is looking up in the tables.
* `texts_read_back`: the image of a module has the texts of the module.
-/

namespace LevelScript

/-- A language that is tried twice gives no more the second time. -/
theorem Language.findSome?_fallbackChain {α : Type} (locale : Language)
    (f : Language → Option α) :
    locale.fallbackChain.findSome? f = [locale, .english, .neutral].findSome? f := by
  unfold fallbackChain
  by_cases he : locale = .english
  · subst he
    cases hf : f .english <;> simp [hf, show (english == neutral) = false from rfl]
  · by_cases hn : locale = .neutral
    · subst hn
      cases hf : f .neutral <;> cases hg : f .english <;>
        simp [hf, hg, show (neutral == english) = false from rfl]
    · simp [he, hn]

namespace Assembly

/-! ## What declarations say -/

namespace Declaration

/-- The texts that a declaration gives. -/
def texts : Declaration → List String
  | .text s => [s]
  | .table _ texts => texts
  | _ => []

/-- The texts of a language after a declaration. -/
def amendTexts (l : Language) (texts : List String) : Declaration → List String
  | .text s => if l = .neutral then texts ++ [s] else texts
  | .table language given => if language = l then given else texts
  | _ => texts

end Declaration

/-- The texts of a language in the end. -/
def declaredTexts (declarations : List Declaration) (l : Language) : List String :=
  declarations.foldl (Declaration.amendTexts l) []

/-- The text at an index in the first of the locale, English and the neutral language that has so
many texts. -/
def declaredText? (declarations : List Declaration) (index : Int32) (locale : Language) :
    Option String :=
  if index < 0 then none
  else
    ([locale, .english, .neutral].find? fun l =>
      index.toNatClampNeg < (declaredTexts declarations l).length).bind fun l =>
        (declaredTexts declarations l)[index.toNatClampNeg]?

theorem mem_amendTexts {l : Language} {texts : List String} {decl : Declaration} {s : String}
    (h : s ∈ Declaration.amendTexts l texts decl) : s ∈ texts ∨ s ∈ decl.texts := by
  cases decl with
  | text s' =>
    rw [Declaration.amendTexts] at h
    split at h
    · exact List.mem_append.mp h
    · exact .inl h
  | table language given =>
    rw [Declaration.amendTexts] at h
    split at h
    · exact .inr h
    · exact .inl h
  | _ => exact .inl h

theorem mem_declaredTexts {declarations : List Declaration} {l : Language} {s : String}
    (h : s ∈ declaredTexts declarations l) : ∃ decl ∈ declarations, s ∈ decl.texts := by
  induction declarations using List.reverseRecOn with
  | nil => cases h
  | append_singleton front decl ih =>
    rw [declaredTexts, List.foldl_append] at h
    rcases mem_amendTexts h with hfront | hdecl
    · obtain ⟨decl', hmem, hs⟩ := ih hfront
      exact ⟨decl', List.mem_append_left _ hmem, hs⟩
    · exact ⟨decl, List.mem_append_right _ List.mem_cons_self, hdecl⟩

namespace Draft

/-! ## Tables of a draft -/

/-- The texts of a language in tables. -/
def textsIn (tables : List (Language × List String)) (l : Language) : List String :=
  (tables.lookup l).getD []

theorem textsIn_cons (t : Language × List String) (rest : List (Language × List String))
    (l : Language) : textsIn (t :: rest) l = if t.1 = l then t.2 else textsIn rest l := by
  obtain ⟨language, texts⟩ := t
  unfold textsIn
  rw [List.lookup_cons]
  by_cases h : language = l
  · simp [h]
  · simp [h, beq_false_of_ne (Ne.symm h)]

theorem textsIn_setTable (language : Language) (texts : List String)
    (tables : List (Language × List String)) (l : Language) :
    textsIn (setTable language texts tables) l =
      if language = l then texts else textsIn tables l := by
  induction tables with
  | nil => rw [setTable, textsIn_cons]
  | cons t rest ih =>
    rw [setTable]
    split
    · rename_i hsame
      obtain rfl := beq_iff_eq.mp hsame
      simp only [textsIn_cons]
      split <;> rfl
    · rename_i hother
      simp only [textsIn_cons, ih]
      have hne : t.1 ≠ language := by simpa using hother
      by_cases hl : language = l
      · rw [if_pos hl, if_pos hl, if_neg (hl ▸ hne)]
      · rw [if_neg hl, if_neg hl]

/-- The neutral table is the first, and each language has one. -/
structure TablesSound (tables : List (Language × List String)) : Prop where
  neutral : tables.head?.map (·.1) = some .neutral
  nodup : (tables.map (·.1)).Nodup

theorem textsIn_addText {tables : List (Language × List String)} (h : TablesSound tables)
    (s : String) (l : Language) : textsIn (addText s tables) l =
      if l = .neutral then textsIn tables l ++ [s] else textsIn tables l := by
  cases tables with
  | nil => cases h.neutral
  | cons t rest =>
    have hneutral : t.1 = .neutral := Option.some.inj h.neutral
    rw [addText, textsIn_cons, textsIn_cons, hneutral]
    by_cases hl : l = .neutral
    · simp [hl]
    · simp [hl, Ne.symm hl]

theorem map_fst_addText (s : String) (tables : List (Language × List String)) :
    (addText s tables).map (·.1) = tables.map (·.1) := by
  cases tables <;> rfl

theorem map_fst_setTable (language : Language) (texts : List String)
    (tables : List (Language × List String)) :
    (setTable language texts tables).map (·.1) =
      if language ∈ tables.map (·.1) then tables.map (·.1) else tables.map (·.1) ++ [language] := by
  induction tables with
  | nil => rfl
  | cons t rest ih =>
    rw [setTable]
    split
    · rename_i hsame
      obtain rfl := beq_iff_eq.mp hsame
      simp
    · rename_i hother
      have hne : language ≠ t.1 := fun heq => hother (by simp [heq])
      simp only [List.map_cons, ih, List.mem_cons, hne, false_or]
      split <;> rfl

theorem TablesSound.setTable {tables : List (Language × List String)} (h : TablesSound tables)
    (language : Language) (texts : List String) :
    TablesSound (Draft.setTable language texts tables) where
  neutral := by
    cases tables with
    | nil => cases h.neutral
    | cons t rest =>
      rw [Draft.setTable]
      split
      · rename_i hsame
        rw [← beq_iff_eq.mp hsame]
        exact h.neutral
      · exact h.neutral
  nodup := by
    rw [map_fst_setTable]
    split
    · exact h.nodup
    · rename_i hnew
      exact List.nodup_append.mpr ⟨h.nodup, List.nodup_singleton _, by
        intro l hl l' hl' heq
        rw [List.mem_singleton.mp hl'] at heq
        exact hnew (heq ▸ hl)⟩

theorem TablesSound.addText {tables : List (Language × List String)} (h : TablesSound tables)
    (s : String) : TablesSound (Draft.addText s tables) where
  neutral := by
    cases tables with
    | nil => cases h.neutral
    | cons t rest => exact h.neutral
  nodup := by
    rw [map_fst_addText]
    exact h.nodup

theorem tables_declare {d : Draft} (h : TablesSound d.tables) (decl : Declaration) :
    TablesSound (d.declare decl).tables ∧
      ∀ l, textsIn (d.declare decl).tables l = decl.amendTexts l (textsIn d.tables l) := by
  cases decl with
  | text s => exact ⟨h.addText s, textsIn_addText h s⟩
  | table language texts =>
    exact ⟨h.setTable language texts, textsIn_setTable language texts d.tables⟩
  | script number typeTag argCount code =>
    rw [declare, emitCode_keeps]
    exact ⟨h, fun _ => rfl⟩
  | define function code =>
    rw [declare, emitCode_keeps]
    exact ⟨h, fun _ => rfl⟩
  | _ => exact ⟨h, fun _ => rfl⟩

/-- The tables of a draft have the declared texts. -/
theorem tables_ofDeclarations (width : CodeWidth) (declarations : List Declaration) :
    TablesSound (ofDeclarations width declarations).tables ∧
      ∀ l, textsIn (ofDeclarations width declarations).tables l = declaredTexts declarations l := by
  induction declarations using List.reverseRecOn with
  | nil =>
    refine ⟨⟨rfl, List.nodup_singleton _⟩, fun l => ?_⟩
    show textsIn [(.neutral, [])] l = []
    rw [textsIn_cons]
    split <;> rfl
  | append_singleton front decl ih =>
    have hfold :
        ofDeclarations width (front ++ [decl]) = (ofDeclarations width front).declare decl :=
      List.foldl_append
    obtain ⟨hsound, htexts⟩ := tables_declare ih.1 decl
    rw [hfold]
    refine ⟨hsound, fun l => ?_⟩
    rw [htexts, ih.2, declaredTexts, declaredTexts, List.foldl_append]
    rfl

/-! ## Tables as they are read -/

/-- Tables without texts are left out, and nothing is found in them anyway. -/
theorem find?_filter_tables {tables : List (Language × List String)}
    (h : (tables.map (·.1)).Nodup) (l : Language) :
    (tables.filter fun t => !t.2.isEmpty).find? (·.1 == l) =
      if textsIn tables l = [] then none else some (l, textsIn tables l) := by
  induction tables with
  | nil => rfl
  | cons t rest ih =>
    obtain ⟨language, texts⟩ := t
    obtain ⟨hnew, hrest⟩ := List.nodup_cons.mp h
    rw [textsIn_cons, List.filter_cons]
    by_cases hl : language = l
    · subst hl
      cases texts with
      | nil =>
        have hnone : (rest.filter fun t => !t.2.isEmpty).find? (·.1 == language) = none := by
          refine List.find?_eq_none.mpr fun t ht heq => hnew ?_
          exact List.mem_map.mpr ⟨t, List.mem_of_mem_filter ht, beq_iff_eq.mp heq⟩
        simpa using hnone
      | cons s more => simp
    · have hrest' := ih hrest
      rw [if_neg hl, ← hrest']
      split
      · exact List.find?_cons_of_neg (by simpa using hl)
      · rfl

theorem strings_eq (d : Draft) (encoding reading : Text.Encoding) : d.strings encoding reading =
    .ofTables ((d.tables.filter fun t => !t.2.isEmpty).map (Image.tableRead encoding reading)) := by
  rw [strings, Strings.ofTables, List.foldl_map]

/-- Texts that the encoding can write are found where they are. -/
theorem get?_table?_strings {d : Draft} (h : TablesSound d.tables) {encoding : Text.Encoding}
    {l : Language} (hwrites : ∀ s ∈ textsIn d.tables l, encoding.Writes s) (index : Int32) :
    ((d.strings encoding encoding).table? l).bind (·.get? index) =
      if index < 0 then none else (textsIn d.tables l)[index.toNatClampNeg]? := by
  have hfind : (fun t : StringTable => t.language == l) ∘ Image.tableRead encoding encoding =
      fun t => t.1 == l := rfl
  rw [strings_eq, Strings.table?_ofTables, List.find?_map, hfind, find?_filter_tables h.nodup]
  split
  · rename_i hempty
    simp [hempty]
  · simp [StringTable.get?, Image.tableRead, Text.Encoding.map_decodeLiteral_encodeLiteral hwrites]

end Draft

theorem findSome?_getElem? {α β : Type} (f : α → List β) (k : Nat) (xs : List α) :
    xs.findSome? (fun x => (f x)[k]?) =
      (xs.find? fun x => k < (f x).length).bind fun x => (f x)[k]? := by
  induction xs with
  | nil => rfl
  | cons x rest ih =>
    by_cases hk : k < (f x).length
    · simp [hk]
    · simp [hk, ih]

/-- Looking up in the tables of a draft is looking up in the declarations. -/
theorem lookup_strings (width : CodeWidth) {encoding : Text.Encoding}
    {declarations : List Declaration}
    (hwrites : ∀ decl ∈ declarations, ∀ s ∈ decl.texts, encoding.Writes s) (index : Int32)
    (locale : Language) :
    ((Draft.ofDeclarations width declarations).strings encoding encoding).lookup index locale =
      declaredText? declarations index locale := by
  obtain ⟨hsound, htexts⟩ := Draft.tables_ofDeclarations width declarations
  have hget : ∀ l, (((Draft.ofDeclarations width declarations).strings encoding encoding).table?
      l).bind (·.get? index) =
        if index < 0 then none else (declaredTexts declarations l)[index.toNatClampNeg]? := by
    intro l
    rw [Draft.get?_table?_strings hsound, htexts]
    intro s hs
    rw [htexts] at hs
    obtain ⟨decl, hdecl, hmem⟩ := mem_declaredTexts hs
    exact hwrites decl hdecl s hmem
  rw [Strings.lookup, Language.findSome?_fallbackChain, declaredText?]
  simp only [hget]
  split
  · rfl
  · exact findSome?_getElem? (declaredTexts declarations) _ _

/-! ## Loading -/

/-- What is read from the chunks with tables is what was written. -/
theorem tables_of_holdsTable {image : Image} (hsize : image.size < 2 ^ 32)
    {encoding reading : Text.Encoding} {chunks : List Chunk}
    {written : List (Language × List String)} {tables : List StringTable}
    (hwritten : List.Forall₂ (fun c t => Chunk.HasAt image c (Draft.tablePayload encoding t.1 t.2))
      chunks written) (htables : List.Forall₂ (Chunk.HoldsTable image reading) chunks tables) :
    tables = written.map (Image.tableRead encoding reading) := by
  induction hwritten generalizing tables with
  | nil =>
    cases htables
    rfl
  | cons hhas _ ih =>
    cases htables with
    | cons htable hrest =>
      have hread := Draft.readTable_of_hasAt hsize hhas reading
      rw [Chunk.holdsTable_iff.mp htable] at hread
      rw [List.map_cons, ← ih hrest, Except.ok.inj hread]

/-- If the image of a draft loads, the texts are those of the draft. -/
theorem Draft.Holds.ensures_strings {d : Draft} {items : List CodeItem} {layout : Layout}
    (h : d.Holds items) (hlayout : layout ≠ .legacy) {encoding : Text.Encoding}
    (hsize : (d.image encoding layout).size < 2 ^ 32) (reading : Text.Encoding) :
    Loading.Ensures (Image.load (d.image encoding layout) reading) fun p =>
      p.strings = d.strings encoding reading := by
  obtain ⟨form, hform⟩ : ∃ form, layout.form? = some form := by
    cases layout with
    | legacy => exact absurd rfl hlayout
    | legacyChunked width => exact ⟨_, rfl⟩
    | enhanced width => exact ⟨_, rfl⟩
  obtain ⟨-, -, hdrop, -⟩ := h.stands hlayout encoding
  rw [chunks_eq] at hdrop
  have hstands : (d.image encoding layout).Stands (d.chunkOffset layout)
      (Chunk.sequence (d.pieces (scriptRecord layout) encoding)) := hdrop ▸ List.prefix_refl _
  have hkind := forall₂_ofKind hstands .strl
  rw [payloads, List.forall₂_map_right_iff] at hkind
  refine Loading.ensures_bind (Q := fun p => p.strings = d.strings encoding reading) ?_ fun p hp =>
    Loading.ensures_bind ((Loading.gives_note _).ensures (Q := fun _ => True) trivial) fun _ _ =>
      Loading.ensures_pure hp
  rw [h.loadTables_eq hlayout encoding hsize]
  refine (Image.ensures_loadChunks _ reading hform _).imp ?_
  rintro p ⟨-, c, hc, htells⟩
  rw [htells.strings_eq, tables_of_holdsTable hsize hkind hc.tables, strings_eq]

/-- **Texts survive assembly, loading and the choice of a language.** If the encoding can write its
texts, the image of a module has at each index, for each locale, the declared text. The image loads
unless an array is too long, and offsets in it have 32 bits. -/
theorem texts_read_back (layout : Layout) (encoding : Text.Encoding)
    (declarations : List Declaration) (hlayout : layout ≠ .legacy)
    (hwrites : ∀ decl ∈ declarations, ∀ s ∈ decl.texts, encoding.Writes s)
    (hsize : (assemble layout encoding declarations).1.size < 2 ^ 32) :
    ((∀ a ∈ declaredArrays declarations, a.size.toNat ≤ Image.maxArrayLength) →
      ∃ p, Loading.Gives (Image.load (assemble layout encoding declarations).1 encoding) p) ∧
    ∀ j p j', Image.load (assemble layout encoding declarations).1 encoding j = .ok p j' →
      ∀ index locale, p.text? index locale = declaredText? declarations index locale := by
  have hholds := Draft.holds_ofDeclarations layout.codeWidth declarations
  have hinside := Draft.entriesInside_ofDeclarations layout.codeWidth declarations
  constructor
  · intro harrays
    rw [← arrays_ofDeclarations layout.codeWidth] at harrays
    exact ⟨_, hholds.gives_load_readScripts hlayout harrays encoding hsize hinside.scripts
      hinside.functions encoding⟩
  · intro j p j' hload index locale
    obtain ⟨-, hstrings⟩ := hholds.ensures_strings hlayout hsize encoding j p j' hload
    rw [Program.text?, hstrings]
    exact lookup_strings layout.codeWidth hwrites index locale

/-! ## A module in three languages -/

namespace Polyglot

def german : Language := ⟨Bytes.ofLe32 0x64 0x65 0 0⟩

def french : Language := ⟨Bytes.ofLe32 0x66 0x72 0 0⟩

/-- A German table that is replaced, a French one without texts, and neutral texts around them. -/
def declarations : List Declaration :=
  [.text "porte fermée", .table german ["Tür", "Öl: 5 €"], .text "key", .table .english ["door"],
    .script 1 1 0 [.op .terminate], .table french [], .table german ["Tor", "Öl: 7 €"],
    .text "café"]

theorem texts_read_back_polyglot :
    (∀ decl ∈ declarations, ∀ s ∈ decl.texts, Text.Encoding.windows1252.Writes s) ∧
    ∃ p, Loading.Gives (Image.load
        (assemble (.legacyChunked .compact) .windows1252 declarations).1 .windows1252) p ∧
      p.text? 0 german = some "Tor" ∧ p.text? 1 german = some "Öl: 7 €" ∧
      p.text? 2 german = some "café" ∧ p.text? 0 french = some "door" ∧
      p.text? 1 .english = some "key" ∧ p.text? 0 .neutral = some "porte fermée" ∧
      p.text? 3 german = none ∧ p.text? (-1) french = none := by
  have hwrites : ∀ decl ∈ declarations, ∀ s ∈ decl.texts, Text.Encoding.windows1252.Writes s := by
    decide +kernel
  obtain ⟨hloads, htexts⟩ := texts_read_back (.legacyChunked .compact) .windows1252 declarations
    (by decide) hwrites (by decide +kernel)
  obtain ⟨p, hp⟩ := hloads (by simp [declarations, declaredArrays, Declaration.array?])
  obtain ⟨j', hload⟩ := hp default
  have hlookup := htexts default p j' hload
  refine ⟨hwrites, p, hp, ?_⟩
  simp only [hlookup]
  decide +kernel

end Polyglot

end Assembly

end LevelScript
