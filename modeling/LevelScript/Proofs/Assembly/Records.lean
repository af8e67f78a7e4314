import Mathlib.Algebra.Group.Int.Defs
import Mathlib.Data.List.Forall2
import LevelScript.Assembly.Image
import LevelScript.Image.Load
import LevelScript.Proofs.Image.Bytes

/-!
# Records are read back

Scripts, functions, values and texts are read back from the records they were written as, and a
sequence of chunks is split into the chunks it was put together from.

* `Image.longScripts_flatMap`, `Image.functionRecords_records`: one lemma for each kind of record.
* `Image.readTable_payload`: a table of texts.
* `Chunk.split_sequence`, `Chunk.ofKind_placed`: chunks, and where their payloads stand.
-/

namespace LevelScript

/-! ## Records -/

namespace Image

open Assembly.Draft (numberBytes shortScript longScript flagsRecord localsRecord functionRecord
  intBytes)

/-- The script as its record has it. -/
def recorded (s : Script) : Script := { s with flags := .none, localCount := none }

/-- The number fits into sixteen bits. -/
def IsShort (number : Int32) : Prop := -2 ^ 15 ≤ number.toInt ∧ number.toInt < 2 ^ 15

theorem IsShort.read {number : Int32} (h : IsShort number) :
    scriptNumber number.toInt16.toUInt16 = number := by
  apply Int32.toInt_inj.mp
  show number.toInt16.toInt32.toInt = number.toInt
  rw [Int16.toInt_toInt32, Int32.toInt_toInt16]
  exact Int.bmod_eq_of_le (by have := h.1; omega) (by have := h.2; omega)

/-- The script as its long record has it. -/
def longRecorded (s : Script) : Script :=
  { recorded s with number := scriptNumber s.number.toInt16.toUInt16 }

/-- The script as its short record has it. -/
def shortRecorded (s : Script) : Script :=
  { longRecorded s with typeTag := s.typeTag.toUInt8.toUInt16 }

theorem clampByte_toUInt32 (b : UInt8) : clampByte b.toUInt32 = b := by
  have hle : b.toUInt32 ≤ 255 := by
    rw [UInt32.le_iff_toNat_le, UInt8.toNat_toUInt32]
    have := b.toNat_lt
    show b.toNat ≤ 255
    omega
  rw [clampByte, if_pos hle, UInt8.toUInt8_toUInt32]

theorem longScripts_flatMap (scripts : List Script) :
    longScripts (scripts.flatMap longScript) = scripts.map longRecorded := by
  induction scripts with
  | nil => rfl
  | cons s rest ih =>
    rw [List.flatMap_cons, List.map_cons, ← ih]
    simp only [longScript, numberBytes, Bytes.le16, Bytes.le32, List.cons_append, List.nil_append,
      longScripts, Bytes.ofLe16_le16, Bytes.ofLe32_le32, clampByte_toUInt32]
    rfl

theorem shortScripts_flatMap (scripts : List Script) :
    shortScripts (scripts.flatMap shortScript) = scripts.map shortRecorded := by
  induction scripts with
  | nil => rfl
  | cons s rest ih =>
    rw [List.flatMap_cons, List.map_cons, ← ih]
    simp only [shortScript, numberBytes, Bytes.le16, Bytes.le32, List.cons_append, List.nil_append,
      shortScripts, Bytes.ofLe16_le16, Bytes.ofLe32_le32]
    rfl

theorem longRecorded_of_short {s : Script} (h : IsShort s.number) :
    longRecorded s = recorded s := by
  rw [longRecorded, h.read]
  rfl

theorem shortRecorded_of_short {s : Script} (h : IsShort s.number) (htag : s.typeTag ≤ 255) :
    shortRecorded s = recorded s := by
  have htag' : s.typeTag.toUInt8.toUInt16 = s.typeTag := by
    apply UInt16.toNat_inj.mp
    have hle : s.typeTag.toNat ≤ 255 := UInt16.le_iff_toNat_le.mp htag
    rw [UInt8.toNat_toUInt16, UInt16.toNat_toUInt8]
    omega
  rw [shortRecorded, longRecorded_of_short h, htag']
  rfl

theorem functionRecords_records (functions : List Function) :
    functionRecords (functions.flatMap functionRecord) = functions := by
  induction functions with
  | nil => rfl
  | cons f rest ih =>
    have hreturn : ((if f.hasReturn then (1 : UInt8) else 0) != 0) = f.hasReturn := by
      cases f.hasReturn <;> rfl
    rw [List.flatMap_cons]
    simp only [functionRecord, Bytes.le32, List.cons_append, List.nil_append, functionRecords,
      Bytes.ofLe32_le32, hreturn, ih]

/-- Pairs of a number and a value are read back from a record for each script that has one. -/
theorem scriptPairs_records {record : Script → List UInt8} {value : Script → Option UInt16}
    (hrecord : ∀ s, record s = match value s with
      | some v => numberBytes s.number ++ Bytes.le16 v
      | none => [])
    {scripts : List Script}
    (h : ∀ s ∈ scripts, IsShort s.number) :
    scriptPairs (scripts.flatMap record) =
      scripts.filterMap fun s => (value s).map (s.number, ·) := by
  induction scripts with
  | nil => rfl
  | cons s rest ih =>
    have hnumber := (h s List.mem_cons_self).read
    have hrest := ih fun s hs => h s (List.mem_cons_of_mem _ hs)
    rw [List.flatMap_cons, List.filterMap_cons, hrecord]
    cases value s with
    | none => exact hrest
    | some v =>
      simp only [numberBytes, Bytes.le16, List.cons_append, List.nil_append, scriptPairs,
        Bytes.ofLe16_le16, hnumber, hrest, Option.map_some]

theorem words_intBytes (values : List Int32) :
    Chunk.words (intBytes values) = values.map Int32.toUInt32 := by
  have hmap : intBytes values = (values.map Int32.toUInt32).flatMap Bytes.le32 ++ [] := by
    rw [List.append_nil, List.flatMap_map]
    rfl
  rw [hmap, words_flatMap]
  exact List.append_nil _

theorem wordPairs_records {α : Type} (first second : α → UInt32) (xs : List α) :
    wordPairs (Chunk.words (xs.flatMap fun x => Bytes.le32 (first x) ++ Bytes.le32 (second x))) =
      xs.map fun x => (first x, second x) := by
  induction xs with
  | nil => rfl
  | cons x rest ih =>
    rw [List.flatMap_cons, List.append_assoc, words_le32, words_le32, wordPairs, ih, List.map_cons]

/-! ## Texts -/

theorem zero_mem_literals (encoding : Text.Encoding) (texts : List String) :
    ∀ l ∈ texts.map encoding.encodeLiteral, 0 ∈ l := by
  intro l hl
  obtain ⟨s, -, rfl⟩ := List.mem_map.mp hl
  exact List.mem_append_right _ List.mem_cons_self

/-- Literals that follow each other are read one by one. -/
theorem readLiterals {image : Image} (encoding : Text.Encoding) {base start : Nat}
    {literals : List (List UInt8)} (hzero : ∀ l ∈ literals, 0 ∈ l)
    (hstands : image.Stands (base + start) literals.flatten)
    (hsize : start + literals.flatten.length < 2 ^ 32) :
    (Assembly.Draft.literalOffsets start.toUInt32 literals).mapM (fun offset =>
      let place := base + offset.toNat
      if place < image.size then Except.ok (encoding.decode (image.literalAt place))
      else .error (LoadError.badOffset "string" place)) =
    .ok (literals.map encoding.decodeLiteral) := by
  induction literals generalizing start with
  | nil => rfl
  | cons l rest ih =>
    have hl := hzero l List.mem_cons_self
    have hne : l ≠ [] := List.ne_nil_of_mem hl
    rw [List.flatten_cons, Image.stands_append] at hstands
    rw [List.flatten_cons, List.length_append] at hsize
    have hstart : start.toUInt32.toNat = start :=
      UInt32.toNat_ofNat_of_lt' (show start < 2 ^ 32 by omega)
    have hnext : start.toUInt32 + l.length.toUInt32 = (start + l.length).toUInt32 :=
      (UInt32.ofNat_add _ _).symm
    have hle := hstands.1.le hne
    have hpos := List.length_pos_iff.mpr hne
    have hrest := ih (fun l hl => hzero l (List.mem_cons_of_mem _ hl))
      (by rw [← Nat.add_assoc]; exact hstands.2) (by omega)
    rw [Assembly.Draft.literalOffsets, List.mapM_cons, hnext, hrest]
    simp only [hstart, if_pos (show base + start < image.size by omega),
      literalAt_of_stands hstands.1 hl]
    rfl

theorem length_literalOffsets (start : UInt32) (literals : List (List UInt8)) :
    (Assembly.Draft.literalOffsets start literals).length = literals.length := by
  induction literals generalizing start with
  | nil => rfl
  | cons l rest ih => rw [Assembly.Draft.literalOffsets, List.length_cons, ih, List.length_cons]

/-- The table of texts that were written in one encoding and are read in another. -/
def tableRead (encoding reading : Text.Encoding) (table : Language × List String) : StringTable :=
  ⟨table.1, (table.2.map fun s => reading.decodeLiteral (encoding.encodeLiteral s)).toArray⟩

theorem readTable_payload {image : Image} {chunk : Chunk} (encoding reading : Text.Encoding)
    (table : Language × List String)
    (hchunk : chunk.payload = Assembly.Draft.tablePayload encoding table.1 table.2)
    (hstands : image.Stands chunk.offset chunk.payload)
    (hsize : chunk.payload.length < 2 ^ 32) :
    readTable image reading chunk = .ok (tableRead encoding reading table) := by
  obtain ⟨language, texts⟩ := table
  obtain ⟨literals, hliterals⟩ : ∃ literals, texts.map encoding.encodeLiteral = literals :=
    ⟨_, rfl⟩
  have hcount : literals.length = texts.length := by rw [← hliterals, List.length_map]
  have hstart : (12 : UInt32) + 4 * texts.length.toUInt32 = (12 + 4 * texts.length).toUInt32 := by
    simp [Nat.toUInt32]
  unfold Assembly.Draft.tablePayload at hchunk
  simp only [hliterals, hstart] at hchunk
  obtain ⟨offsets, hoffsets⟩ : ∃ offsets,
      Assembly.Draft.literalOffsets (12 + 4 * texts.length).toUInt32 literals = offsets := ⟨_, rfl⟩
  have hlength : offsets.length = texts.length := by
    rw [← hoffsets, length_literalOffsets, hcount]
  rw [hoffsets] at hchunk
  -- What stands in front of the literals.
  have hfront : (Bytes.le32 language.word ++ Bytes.le32 texts.length.toUInt32 ++ Bytes.le32 0 ++
      offsets.flatMap Bytes.le32).length = 12 + 4 * texts.length := by
    have hoffsets' : (offsets.flatMap Bytes.le32).length = texts.length * 4 := by
      simp [List.length_flatMap, hlength]
    simp only [List.length_append, Bytes.length_le32, hoffsets']
    omega
  rw [hchunk, List.length_append, hfront] at hsize
  rw [hchunk, Image.stands_append, hfront] at hstands
  have hwords : Chunk.words chunk.payload =
      language.word :: texts.length.toUInt32 :: 0 :: (offsets ++ Chunk.words literals.flatten) := by
    rw [hchunk, List.append_assoc, List.append_assoc, List.append_assoc, words_le32, words_le32,
      words_le32, words_flatMap]
  have hnat : texts.length.toUInt32.toNat = texts.length :=
    UInt32.toNat_ofNat_of_lt' (show texts.length < 2 ^ 32 by omega)
  have hread := readLiterals reading (hliterals ▸ zero_mem_literals encoding texts) hstands.2 hsize
  rw [readTable, hwords]
  simp only [hnat]
  rw [if_neg (by simp [hlength]), ← hlength, List.take_left, readTexts, ← hoffsets, hread,
    ← hliterals, List.map_map]
  rfl

end Image

/-! ## Chunks -/

namespace Chunk

/-- The chunks of kinds and payloads that follow each other from an offset on. -/
def placed : Nat → List (ChunkKind × List UInt8) → List Chunk
  | _, [] => []
  | offset, (kind, payload) :: rest =>
    ⟨kind.id, payload, offset + 8⟩ :: placed (offset + 8 + payload.length) rest

/-- The bytes of kinds and payloads. -/
def sequence (pieces : List (ChunkKind × List UInt8)) : List UInt8 :=
  pieces.flatMap fun p => encode p.1.id p.2

theorem split_sequence {pieces : List (ChunkKind × List UInt8)} (offset : Nat)
    (h : ∀ p ∈ pieces, p.2.length < 2 ^ 32) :
    split offset (sequence pieces) = .ok (placed offset pieces) := by
  induction pieces generalizing offset with
  | nil => exact split_short (by simp [sequence]) offset
  | cons p rest ih =>
    obtain ⟨kind, payload⟩ := p
    have hid : kind.id.length = 4 := by cases kind <;> rfl
    have hrest := ih (offset + 8 + payload.length) fun p hp => h p (List.mem_cons_of_mem _ hp)
    rw [placed, sequence, List.flatMap_cons, split_encode hid (h _ List.mem_cons_self)]
    show (split _ (sequence rest)).map _ = _
    rw [hrest]
    rfl

theorem length_le_sequence {pieces : List (ChunkKind × List UInt8)} {p : ChunkKind × List UInt8}
    (h : p ∈ pieces) : p.2.length ≤ (sequence pieces).length := by
  induction pieces with
  | nil => simp at h
  | cons q rest ih =>
    rw [sequence, List.flatMap_cons, List.length_append, encode, List.length_append]
    obtain rfl | hmem := List.mem_cons.mp h
    · omega
    · have hle : p.2.length ≤ (sequence rest).length := ih hmem
      unfold sequence at hle
      omega

theorem id_injective {k k' : ChunkKind} (h : k.id = k'.id) : k = k' := by
  cases k <;> cases k' <;> first | rfl | exact absurd h (by decide)

/-- The chunk has the payload, which stands where the chunk says. -/
def HasAt (image : Image) (c : Chunk) (payload : List UInt8) : Prop :=
  c.payload = payload ∧ image.Stands c.offset payload

/-- The chunks of a kind, each where its payload stands. -/
theorem ofKind_placed {image : Image} (kind : ChunkKind) {pieces : List (ChunkKind × List UInt8)}
    {offset : Nat} (h : image.Stands offset (sequence pieces)) :
    List.Forall₂ (fun c p => HasAt image c p.2)
      (ofKind kind (placed offset pieces)) (pieces.filter (·.1 == kind)) := by
  induction pieces generalizing offset with
  | nil => exact .nil
  | cons p rest ih =>
    obtain ⟨k, payload⟩ := p
    have hid : k.id.length = 4 := by cases k <;> rfl
    rw [sequence, List.flatMap_cons, Image.stands_append, encode, Image.stands_append] at h
    obtain ⟨⟨-, hpayload⟩, hrest⟩ := h
    have hhead : (k.id ++ Bytes.le32 payload.length.toUInt32).length = 8 := by
      rw [List.length_append, hid, Bytes.length_le32]
    rw [hhead] at hpayload
    rw [List.length_append, hhead, ← Nat.add_assoc] at hrest
    have hsame : (k.id == kind.id) = (k == kind) := by
      by_cases hk : k = kind
      · rw [hk, beq_self_eq_true, beq_self_eq_true]
      · rw [beq_false_of_ne hk, beq_false_of_ne fun hid => hk (id_injective hid)]
    rw [placed, ofKind, List.filter_cons, List.filter_cons]
    simp only [hsame]
    split
    · exact .cons ⟨rfl, hpayload⟩ (ih hrest)
    · exact ih hrest

end Chunk

end LevelScript
