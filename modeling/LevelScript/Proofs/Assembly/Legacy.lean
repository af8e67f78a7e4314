import LevelScript.Proofs.Assembly.Texts

/-!
# Legacy images

A legacy image has code, neutral texts and a directory of both. What stands in front of the
directory tells whether there are chunks too. This is the last literal if there are texts, and it
ends in a zero byte. Without texts it is code, which may end in any bytes, also in those of the tag.

* `Image.gives_loadLegacy`: a directory is read as what it holds.
* `Draft.directoryWrites_directoryRecord`: kind and number of a script in one word.
* `Draft.Holds.tagged_iff`: when a legacy image looks like one with chunks.
* `legacy_read_back`: the image of a module loads as declared, unless it looks like one with chunks.
-/

namespace LevelScript

open Bytes (le32)

/-! ## Reading a directory -/

namespace Image

open Loading

variable {image : Image} {directory : UInt32}

theorem loadTables_of_leads (h : image.Leads .legacy directory) (encoding : Text.Encoding) :
    loadTables image encoding = loadLegacy image encoding directory.toNat := by
  cases h with
  | legacy header untagged =>
    obtain ⟨rest, hrest⟩ := header
    have hnone : chunkedTag? image directory.toNat = none := by
      cases hwidth : chunkedTag? image directory.toNat with
      | none => rfl
      | some width => exact absurd (chunkedTag?_eq_some_iff.mp hwidth) (untagged width)
    rw [List.drop_zero] at hrest
    unfold loadTables
    rw [← hrest]
    simp only [le32, List.cons_append, List.nil_append, Bytes.ofLe32_le32]
    rw [if_neg (by decide), if_neg (by decide), if_neg (by decide), if_pos (by decide), hnone]

/-- A directory is read as what it holds. -/
theorem gives_loadLegacy {encoding : Text.Encoding} {scripts : List Script}
    {offsets : List UInt32} {texts : Array String}
    (hdirectory : image.HoldsDirectory directory.toNat scripts offsets)
    (htexts : image.HoldsTexts encoding 0 offsets texts)
    (hinside : ∀ s ∈ scripts, s.entry.toNat < image.size) :
    Gives (loadLegacy image encoding directory.toNat)
      ⟨image, .legacy, dropRepeated (scripts.mergeSort fun s t => s.number ≤ t.number), #[],
        ⟨[⟨.neutral, texts⟩]⟩, MapMemory.empty⟩ := by
  obtain ⟨count, textCount, hcount, hscripts, htextCount, hoffsets⟩ :=
    holdsDirectory_iff.mp hdirectory
  have hplace : directory.toNat + 4 ≤ image.size := hcount.le (by simp [le32])
  unfold loadLegacy
  dsimp only
  rw [if_neg (by omega)]
  refine gives_bind (gives_ofExcept (directoryWord_eq_ok_iff.mpr hcount)) ?_
  refine gives_bind (gives_ofExcept hscripts) ?_
  refine gives_bind (gives_ofExcept (directoryWord_eq_ok_iff.mpr htextCount)) ?_
  refine gives_bind (gives_ofExcept hoffsets) ?_
  refine gives_bind (gives_ofExcept (a := ⟨.neutral, texts⟩)
    (readTexts_eq_ok_iff.mpr ⟨rfl, htexts⟩)) ?_
  exact gives_bind (gives_finishScripts hinside) (gives_pure _)

theorem gives_load_of_leads {encoding : Text.Encoding} {p : Program}
    (hleads : image.Leads .legacy directory)
    (h : Gives (loadLegacy image encoding directory.toNat) p) : Gives (load image encoding) p := by
  refine gives_bind ?_ (gives_bind (gives_note _) (gives_pure _))
  rw [loadTables_of_leads hleads]
  exact h

/-- The tag stands in front of the directory if what is there ends in it. -/
theorem tagged_iff_suffix {head body back : List UInt8}
    (himage : image.toList = head ++ (body ++ back)) (hhead : head.length = 8)
    (hplace : directory.toNat = 8 + body.length) (width : CodeWidth) :
    image.Tagged directory width ↔ width.tag <:+ body := by
  have hlength := length_tag width
  constructor
  · rintro ⟨hle, hstands⟩
    have hdrop : image.toList.drop (directory.toNat - 4) = body.drop (body.length - 4) ++ back := by
      have hfront : directory.toNat - 4 = head.length + (body.length - 4) := by omega
      rw [himage, hfront, ← List.drop_drop, List.drop_left,
        List.drop_append_of_le_length (Nat.sub_le _ _)]
    have hend : (body.drop (body.length - 4)).length = 4 := by
      rw [List.length_drop]
      omega
    have htag : width.tag = body.drop (body.length - 4) :=
      Stands.unique hstands ⟨back, hdrop.symm⟩ (hlength.trans hend.symm)
    rw [htag]
    exact List.drop_suffix _ _
  · rintro ⟨front, rfl⟩
    rw [List.length_append] at hplace
    have hstands := stands_of_toList himage
    rw [stands_append, stands_append, stands_append, hhead] at hstands
    have hbefore : directory.toNat - 4 = 0 + 8 + front.length := by omega
    exact ⟨by omega, hbefore ▸ hstands.2.1.2⟩

end Image

namespace Assembly

namespace Draft

/-! ## Records -/

/-- The record of a script in a directory. -/
def directoryRecord (s : Script) : List UInt8 :=
  le32 (s.typeTag.toUInt32 * 1000 + s.number.toUInt32) ++ (le32 s.argCount.toUInt32 ++ le32 s.entry)

/-- Kind and number come apart again, since numbers have three digits. -/
theorem unpack (typeTag : UInt16) {number : Int32} (hlow : 0 ≤ number) (hhigh : number ≤ 999) :
    ((typeTag.toUInt32 * 1000 + number.toUInt32) % 1000).toInt32 = number ∧
      ((typeTag.toUInt32 * 1000 + number.toUInt32) / 1000).toUInt16 = typeTag := by
  obtain ⟨w, rfl⟩ : ∃ w : UInt32, number = w.toInt32 := ⟨number.toUInt32, by simp⟩
  have hlow' : 0 ≤ w.toInt32.toInt := Int32.le_iff_toInt_le.mp hlow
  have hhigh' : w.toInt32.toInt ≤ 999 := Int32.le_iff_toInt_le.mp hhigh
  have hint : w.toInt32.toInt = if 2 * w.toNat < 2 ^ 32 then (w.toNat : Int)
      else w.toNat - (2 ^ 32 : Nat) := BitVec.toInt_eq_toNat_cond w.toBitVec
  have hw := w.toNat_lt
  have htag := typeTag.toNat_lt
  have hsmall : w.toNat ≤ 999 := by
    split at hint <;> omega
  have hpacked : (typeTag.toUInt32 * 1000 + w).toNat = typeTag.toNat * 1000 + w.toNat := by
    rw [UInt32.toNat_add, UInt32.toNat_mul, UInt16.toNat_toUInt32]
    show (typeTag.toNat * 1000 % 2 ^ 32 + w.toNat) % 2 ^ 32 = _
    omega
  rw [UInt32.toUInt32_toInt32]
  constructor
  · refine congrArg UInt32.toInt32 (UInt32.toNat_inj.mp ?_)
    rw [UInt32.toNat_mod, hpacked]
    show (typeTag.toNat * 1000 + w.toNat) % 1000 = w.toNat
    omega
  · apply UInt16.toNat_inj.mp
    rw [UInt32.toNat_toUInt16, UInt32.toNat_div, hpacked]
    show (typeTag.toNat * 1000 + w.toNat) / 1000 % 2 ^ 16 = typeTag.toNat
    omega

theorem directoryWrites_directoryRecord {s : Script} (hlow : 0 ≤ s.number)
    (hhigh : s.number ≤ 999) :
    DirectoryWrites (Image.recorded s) (directoryRecord s) := by
  have hwrites := DirectoryWrites.script (s.typeTag.toUInt32 * 1000 + s.number.toUInt32)
    s.argCount.toUInt32 s.entry
  obtain ⟨hnumber, htag⟩ := unpack s.typeTag hlow hhigh
  rw [hnumber, htag, Image.clampByte_toUInt32] at hwrites
  exact hwrites

/-! ## Parts of the image -/

/-- The bytes of the code, with the offsets of labels in them. -/
def emitted (d : Draft) : List UInt8 := d.resolved.toList.drop headerLength

/-- The neutral texts as they stand in an image. -/
def literals (d : Draft) (encoding : Text.Encoding) : List (List UInt8) :=
  (textsIn d.tables .neutral).map encoding.encodeLiteral

/-- What a legacy image has in front of its directory. -/
def body (d : Draft) (encoding : Text.Encoding) : List UInt8 :=
  d.emitted ++ (d.literals encoding).flatten

def directory (d : Draft) (encoding : Text.Encoding) : List UInt8 :=
  le32 d.scripts.length.toUInt32 ++ ((d.scripts.map directoryRecord).flatten ++
    (le32 (d.literals encoding).length.toUInt32 ++ (literalOffsets
      (headerLength + d.emitted.length).toUInt32 (d.literals encoding)).flatMap le32))

theorem head?_eq_textsIn {tables : List (Language × List String)} (h : TablesSound tables) :
    (tables.head?.map (·.2)).getD [] = textsIn tables .neutral := by
  cases tables with
  | nil => cases h.neutral
  | cons t rest =>
    rw [textsIn_cons, if_pos (Option.some.inj h.neutral)]
    rfl

theorem length_directory (d : Draft) (encoding : Text.Encoding) :
    (d.directory encoding).length =
      8 + d.scripts.length * 12 + (d.literals encoding).length * 4 := by
  have hrecord (s : Script) : (directoryRecord s).length = 12 := rfl
  have hword (v : UInt32) : (le32 v).length = 4 := rfl
  simp only [directory, List.length_append, hword, List.length_flatten, List.map_map,
    Function.comp_def, hrecord, List.map_const', List.sum_replicate_nat, List.length_flatMap,
    Image.length_literalOffsets]
  omega

/-- Literals end in a zero byte, so what ends in the tag is code. -/
theorem suffix_body_iff (d : Draft) (encoding : Text.Encoding) (width : CodeWidth) :
    width.tag <:+ d.body encoding ↔ textsIn d.tables .neutral = [] ∧ width.tag <:+ d.emitted := by
  rw [body, literals]
  obtain hnil | ⟨front, s, hlast⟩ := List.eq_nil_or_concat' (textsIn d.tables .neutral)
  · rw [hnil]
    simp
  · rw [hlast]
    constructor
    · rintro ⟨rest, hrest⟩
      have hend := congrArg List.getLast? hrest
      rw [List.map_append, List.flatten_append] at hend
      cases width <;> simp [CodeWidth.tag, Text.Encoding.encodeLiteral] at hend
    · rintro ⟨hnil, -⟩
      simp at hnil

section Parts

variable {d : Draft} {items : List CodeItem} {encoding : Text.Encoding} (h : d.Holds items)
include h

theorem Holds.resolved_eq :
    d.resolved.toList = List.replicate headerLength 0 ++ d.emitted := by
  rw [emitted, h.resolved, List.drop_left' List.length_replicate]

theorem Holds.size_eq : d.resolved.size = headerLength + d.emitted.length := by
  rw [← Array.length_toList, h.resolved_eq, List.length_append, List.length_replicate]

variable (htables : TablesSound d.tables)
include htables

theorem Holds.legacy_toList (encoding : Text.Encoding) :
    (d.image encoding .legacy).toList =
      ([0x41, 0x43, 0x53, 0] ++ le32 (headerLength + (d.body encoding).length).toUInt32) ++
        (d.body encoding ++ d.directory encoding) := by
  have hsize : (d.resolved ++ (d.literals encoding).flatten).size =
      headerLength + (d.body encoding).length := by
    rw [← Array.length_toList, Array.toList_appendList, h.resolved_eq, List.append_assoc,
      List.length_append, List.length_replicate]
    rfl
  rw [image, legacyImage]
  simp only [head?_eq_textsIn htables]
  show (withHeader (d.resolved ++ (d.literals encoding).flatten ++ _) 0
    (d.resolved ++ (d.literals encoding).flatten).size.toUInt32).toList = _
  rw [hsize]
  refine withHeader_toList ?_ _ _
  simp only [Array.toList_appendList, h.resolved_eq, List.append_assoc, body, directory, h.size_eq,
    List.flatMap_def]
  rfl

/-- The image has room for all numbers in its directory. -/
theorem Holds.legacy_size (encoding : Text.Encoding) :
    (d.image encoding .legacy).size = headerLength + (d.body encoding).length +
      (8 + d.scripts.length * 12 + (d.literals encoding).length * 4) := by
  have hword (v : UInt32) : (le32 v).length = 4 := rfl
  rw [← Array.length_toList, h.legacy_toList htables, List.length_append, List.length_append,
    List.length_append, hword, length_directory]
  exact (Nat.add_assoc ..).symm

/-- Where the header, the texts and the directory of a legacy image stand. -/
theorem Holds.legacy_stands (encoding : Text.Encoding) :
    (d.image encoding .legacy).Stands 0
        ([0x41, 0x43, 0x53, 0] ++ le32 (headerLength + (d.body encoding).length).toUInt32) ∧
      (d.image encoding .legacy).Stands (headerLength + d.emitted.length)
        (d.literals encoding).flatten ∧
      (d.image encoding .legacy).Stands (headerLength + (d.body encoding).length)
        (d.directory encoding) := by
  have hstands := Image.stands_of_toList (h.legacy_toList htables encoding)
  obtain ⟨hheader, hrest⟩ := Image.stands_append.mp hstands
  obtain ⟨hbody, hdirectory⟩ := Image.stands_append.mp hrest
  exact ⟨hheader, (Image.stands_append.mp hbody).2, hdirectory⟩

theorem Holds.holdsDirectory (hsize : (d.image encoding .legacy).size < 2 ^ 32)
    (hnumbers : ∀ s ∈ d.scripts, 0 ≤ s.number ∧ s.number ≤ 999) :
    (d.image encoding .legacy).HoldsDirectory (headerLength + (d.body encoding).length)
      (d.scripts.map Image.recorded)
      (literalOffsets (headerLength + d.emitted.length).toUInt32 (d.literals encoding)) := by
  rw [h.legacy_size htables] at hsize
  have hcount : d.scripts.length.toUInt32.toNat = d.scripts.length :=
    UInt32.toNat_ofNat_of_lt' (show d.scripts.length < 2 ^ 32 by omega)
  have htextCount : (d.literals encoding).length.toUInt32.toNat = (d.literals encoding).length :=
    UInt32.toNat_ofNat_of_lt' (show (d.literals encoding).length < 2 ^ 32 by omega)
  refine ⟨_, _, d.scripts.map directoryRecord, ?_, ?_, ?_, (h.legacy_stands htables encoding).2.2⟩
  · rw [List.forall₂_map_left_iff, List.forall₂_map_right_iff, List.forall₂_same]
    exact fun s hs => directoryWrites_directoryRecord (hnumbers s hs).1 (hnumbers s hs).2
  · rw [List.length_map, hcount]
  · rw [Image.length_literalOffsets, htextCount]

/-- Texts that the encoding can write are read back from a legacy image. -/
theorem Holds.holdsTexts (hsize : (d.image encoding .legacy).size < 2 ^ 32)
    (hwrites : ∀ s ∈ textsIn d.tables .neutral, encoding.Writes s) :
    (d.image encoding .legacy).HoldsTexts encoding 0
      (literalOffsets (headerLength + d.emitted.length).toUInt32 (d.literals encoding))
      (textsIn d.tables .neutral).toArray := by
  have hbody : (d.body encoding).length =
      d.emitted.length + (d.literals encoding).flatten.length := List.length_append
  have hstands := (h.legacy_stands htables encoding).2.1
  rw [h.legacy_size htables] at hsize
  rw [← Nat.zero_add (headerLength + d.emitted.length)] at hstands
  have hzero : ∀ l ∈ d.literals encoding, 0 ∈ l := Image.zero_mem_literals encoding _
  have hread := Image.readLiterals encoding hzero hstands (by omega)
  have hmap : (d.literals encoding).map encoding.decodeLiteral = textsIn d.tables .neutral := by
    rw [literals, List.map_map]
    exact Text.Encoding.map_decodeLiteral_encodeLiteral hwrites
  have htable : Image.readTexts (d.image encoding .legacy) encoding 0 .neutral
      (literalOffsets (headerLength + d.emitted.length).toUInt32 (d.literals encoding)) =
        .ok ⟨.neutral, (textsIn d.tables .neutral).toArray⟩ := by
    rw [Image.readTexts, hread, hmap]
    rfl
  exact (Image.readTexts_eq_ok_iff.mp htable).2

/-! ## What stands in front of the directory -/

theorem Holds.tagged_iff (hsize : (d.image encoding .legacy).size < 2 ^ 32)
    (width : CodeWidth) :
    (d.image encoding .legacy).Tagged (headerLength + (d.body encoding).length).toUInt32 width ↔
      textsIn d.tables .neutral = [] ∧ width.tag <:+ d.emitted := by
  rw [← suffix_body_iff d encoding]
  refine Image.tagged_iff_suffix (h.legacy_toList htables encoding) rfl ?_ width
  rw [h.legacy_size htables] at hsize
  exact UInt32.toNat_ofNat_of_lt' (show headerLength + _ < 2 ^ 32 by omega)

/-- A legacy image that does not look like one with chunks is read as what was put into it. -/
theorem Holds.gives_load_legacy (hsize : (d.image encoding .legacy).size < 2 ^ 32)
    (hnumbers : ∀ s ∈ d.scripts, 0 ≤ s.number ∧ s.number ≤ 999)
    (hentries : ∀ s ∈ d.scripts, s.entry.toNat ≤ d.code.size)
    (hwrites : ∀ s ∈ textsIn d.tables .neutral, encoding.Writes s)
    (huntagged : ∀ width : CodeWidth,
      ¬ (textsIn d.tables .neutral = [] ∧ width.tag <:+ d.emitted)) :
    Loading.Gives (Image.load (d.image encoding .legacy) encoding)
      ⟨d.image encoding .legacy, .legacy,
        Image.dropRepeated
          ((d.scripts.map Image.recorded).mergeSort fun s t => s.number ≤ t.number), #[],
        ⟨[⟨.neutral, (textsIn d.tables .neutral).toArray⟩]⟩, MapMemory.empty⟩ := by
  have hlegacySize := h.legacy_size htables encoding
  have hplace : (headerLength + (d.body encoding).length).toUInt32.toNat =
      headerLength + (d.body encoding).length :=
    UInt32.toNat_ofNat_of_lt' (show headerLength + _ < 2 ^ 32 by omega)
  have hdirectory := h.holdsDirectory htables hsize hnumbers
  rw [← hplace] at hdirectory
  refine Image.gives_load_of_leads
    (.legacy (h.legacy_stands htables encoding).1 fun width htagged =>
      huntagged width ((h.tagged_iff htables hsize width).mp htagged))
    (Image.gives_loadLegacy hdirectory (h.holdsTexts htables hsize hwrites) ?_)
  have hbody : (d.body encoding).length =
      d.emitted.length + (d.literals encoding).flatten.length := List.length_append
  have hcode : d.code.size = headerLength + d.emitted.length := by
    rw [h.spells.size, ← h.size_resolved, h.size_eq]
  intro kept hkept
  obtain ⟨s, hs, rfl⟩ := List.mem_map.mp hkept
  have hentry : (Image.recorded s).entry.toNat ≤ d.code.size := hentries s hs
  omega

end Parts

end Draft

/-! ## Modules -/

/-- The module has no neutral texts, and its code ends in the tag of images with chunks. -/
def LooksChunked (declarations : List Declaration) : Prop :=
  declaredTexts declarations .neutral = [] ∧
    ∃ width : CodeWidth, width.tag <:+ (Draft.ofDeclarations .wide declarations).emitted

section

variable {encoding : Text.Encoding} {declarations : List Declaration}

theorem fst_assemble_legacy : (assemble .legacy encoding declarations).1 =
    (Draft.ofDeclarations .wide declarations).image encoding .legacy := by
  rw [assemble, Layout.codeWidth]

/-- What looks like an image with chunks is not read as a legacy image. -/
theorem LooksChunked.layout_ne (h : LooksChunked declarations)
    (hsize : (assemble .legacy encoding declarations).1.size < 2 ^ 32) {j j' : Journal}
    {p : Program}
    (hload : Image.load (assemble .legacy encoding declarations).1 encoding j = .ok p j') :
    p.layout ≠ .legacy := by
  obtain ⟨hempty, width, hsuffix⟩ := h
  obtain ⟨htables, htexts⟩ := Draft.tables_ofDeclarations .wide declarations
  have hholds := Draft.holds_ofDeclarations .wide declarations
  rw [fst_assemble_legacy] at hsize hload
  have htagged := (hholds.tagged_iff htables hsize width).mpr
    ⟨(htexts .neutral).trans hempty, hsuffix⟩
  have hheader := (hholds.legacy_stands htables encoding).1
  obtain ⟨-, c, hcontents, -⟩ := Image.ensures_tells _ encoding j p j' hload
  intro hlayout
  rw [hlayout] at hcontents
  cases hcontents with
  | chunked leads form_eq _ _ _ => cases form_eq
  | legacy leads _ _ =>
    cases leads with
    | legacy header untagged =>
      obtain ⟨-, rfl⟩ := Image.header_unique header hheader rfl
      exact untagged width htagged

end

/-- **Legacy images load back.** If script numbers are different and have three digits, and the
encoding can write the neutral texts, the image of a module loads with the declared scripts in the
order of their numbers and the declared texts. The one exception is a module without texts whose
code ends in the tag: its image never loads as a legacy image. Offsets in an image have 32 bits. -/
theorem legacy_read_back (encoding : Text.Encoding) (declarations : List Declaration)
    (hnumbers : (declarations.filterMap Declaration.number?).Nodup)
    (hrange : ∀ n ∈ declarations.filterMap Declaration.number?, 0 ≤ n ∧ n ≤ 999)
    (hwrites : ∀ s ∈ declaredTexts declarations .neutral, encoding.Writes s)
    (hsize : (assemble .legacy encoding declarations).1.size < 2 ^ 32) :
    (¬ LooksChunked declarations → ∃ p,
      Loading.Gives (Image.load (assemble .legacy encoding declarations).1 encoding) p ∧
      p.layout = .legacy ∧ p.scripts.Pairwise (·.number < ·.number) ∧
      p.scripts.Perm ((declaredScripts .wide Draft.headerLength declarations).map Image.recorded) ∧
      p.strings.tables = [⟨.neutral, (declaredTexts declarations .neutral).toArray⟩]) ∧
    (LooksChunked declarations → ∀ j p j',
      Image.load (assemble .legacy encoding declarations).1 encoding j = .ok p j' →
        p.layout ≠ .legacy) := by
  refine ⟨fun huntagged => ?_, fun h j p j' hload => h.layout_ne hsize hload⟩
  obtain ⟨htables, htexts⟩ := Draft.tables_ofDeclarations .wide declarations
  have hholds := Draft.holds_ofDeclarations .wide declarations
  have hinside := (Draft.entriesInside_ofDeclarations .wide declarations).scripts
  have hscripts := scripts_ofDeclarations .wide declarations hnumbers
  have hmap := map_number_declaredScripts .wide declarations Draft.headerLength
  rw [fst_assemble_legacy] at hsize ⊢
  rw [← hscripts] at hmap ⊢
  rw [← htexts] at hwrites
  have hsmall : ∀ s ∈ (Draft.ofDeclarations .wide declarations).scripts,
      0 ≤ s.number ∧ s.number ≤ 999 := fun s hs => hrange _ (hmap ▸ List.mem_map_of_mem hs)
  have hload := hholds.gives_load_legacy htables hsize hsmall hinside hwrites fun width h =>
    huntagged ⟨htexts .neutral ▸ h.1, width, h.2⟩
  have hnodup : (((Draft.ofDeclarations .wide declarations).scripts.map Image.recorded).map
      (·.number)).Nodup := by
    rw [List.map_map]
    exact (congrArg List.Nodup hmap).mpr hnumbers
  have hascending := Draft.ascending_mergeSort hnodup
  refine ⟨_, hload, rfl, ?_, ?_, ?_⟩
  · rw [Draft.dropRepeated_of_ascending hascending]
    exact hascending
  · rw [Draft.dropRepeated_of_ascending hascending]
    exact List.mergeSort_perm _ _
  · rw [htexts]

/-! ## Modules whose code ends in a tag -/

namespace Tagged

/-- The code ends in `ACSE`. -/
def code : List CodeItem := [.op .terminate, .word 0x45534341]

/-- Scripts out of order, and a text behind the code. -/
def declarations : List Declaration :=
  [.script 999 65535 255 [.op .terminate], .text "café", .script 0 1 3 code, .flags 0 ⟨1⟩,
    .text ""]

theorem legacy_read_back_tagged :
    (∀ s ∈ declaredTexts declarations .neutral, Text.Encoding.utf8.Writes s) ∧
    ¬ LooksChunked declarations ∧
    ∃ p, Loading.Gives (Image.load (assemble .legacy .utf8 declarations).1 .utf8) p ∧
      p.layout = .legacy ∧
      p.scripts = [⟨0, 1, 3, 12, .none, none⟩, ⟨999, 65535, 255, 8, .none, none⟩] ∧
      p.strings.tables = [⟨.neutral, #["café", ""]⟩] := by
  have hwrites : ∀ s ∈ declaredTexts declarations .neutral, Text.Encoding.utf8.Writes s := by
    decide +kernel
  have huntagged : ¬ LooksChunked declarations := fun h => absurd h.1 (by decide)
  obtain ⟨p, hload, hlayout, hascending, hscripts, hstrings⟩ :=
    (legacy_read_back .utf8 declarations (by decide)
      (by simp [declarations, Declaration.number?]) hwrites (by decide +kernel)).1 huntagged
  have hperm : p.scripts.Perm [⟨0, 1, 3, 12, .none, none⟩, ⟨999, 65535, 255, 8, .none, none⟩] :=
    hscripts.trans (.swap ..)
  refine ⟨hwrites, huntagged, p, hload, hlayout, ?_, hstrings⟩
  exact hperm.eq_of_pairwise
    (fun s t _ _ hst hts => absurd (Int32.lt_trans hst hts) Int32.lt_irrefl) hascending (by decide)

/-- A script alone, whose image has the tag in front of its directory. -/
def bare : List Declaration := [.script 1 1 0 code]

theorem bare_misread :
    (bare.filterMap Declaration.number?).Nodup ∧
    (∀ n ∈ bare.filterMap Declaration.number?, 0 ≤ n ∧ n ≤ 999) ∧
    (∀ s ∈ declaredTexts bare .neutral, Text.Encoding.windows1252.Writes s) ∧
    ¬ ∃ p, Loading.Gives (Image.load (assemble .legacy .windows1252 bare).1 .windows1252) p ∧
      p.layout = .legacy := by
  refine ⟨by decide, by simp [bare, Declaration.number?], by decide, ?_⟩
  rintro ⟨p, hload, hlayout⟩
  obtain ⟨j, hj⟩ := hload default
  have htagged : LooksChunked bare := ⟨by decide, .wide, by decide +kernel⟩
  exact htagged.layout_ne (by decide +kernel) hj hlayout

end Tagged

end Assembly

end LevelScript
