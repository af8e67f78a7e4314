import LevelScript.Proofs.Image.Chunks
import LevelScript.Proofs.Image.Loading

/-!
# What an image holds

The scripts, values and tables of an image in the order in which they stand in it, told by how
they are written and not by how they are read.

* `ScriptForm.Writes`, `WritesPair`, `DirectoryWrites`: how records are written.
* `Records`: records one after another.
* `Image.Holds`: what an image of a layout holds. An image holds one thing (`Image.Holds.unique`).
* `Reads.records_iff`, `Chunk.holdsTable_iff`, `Image.directoryScripts_iff`: what is read is what is
  there.
-/

namespace LevelScript

open Bytes (le16 le32)

/-! ## How records are written -/

/-- The forms of a script record in a chunk. -/
inductive ScriptForm where
  | short
  | long

/-- The record of a script. Flags and the number of variables are not part of it. -/
inductive ScriptForm.Writes : ScriptForm → Script → List UInt8 → Prop
  | short (number : UInt16) (tag argCount : UInt8) (entry : UInt32) :
    Writes .short ⟨Image.scriptNumber number, tag.toUInt16, argCount, entry, .none, none⟩
      (le16 number ++ ([tag, argCount] ++ le32 entry))
  | long (number tag : UInt16) (entry argCount : UInt32) :
    Writes .long ⟨Image.scriptNumber number, tag, Image.clampByte argCount, entry, .none, none⟩
      (le16 number ++ (le16 tag ++ (le32 entry ++ le32 argCount)))

def ScriptForm.size : ScriptForm → Nat
  | .short => 8
  | .long => 12

/-- A script number with a value. -/
inductive WritesPair : Int32 × UInt16 → List UInt8 → Prop
  | pair (number value : UInt16) :
    WritesPair (Image.scriptNumber number, value) (le16 number ++ le16 value)

/-- The record of a script in a directory, with its kind and its number in one word. -/
inductive DirectoryWrites : Script → List UInt8 → Prop
  | script (packed argCount entry : UInt32) :
    DirectoryWrites ⟨(packed % 1000).toInt32, (packed / 1000).toUInt16,
      Image.clampByte argCount, entry, .none, none⟩
      (le32 packed ++ (le32 argCount ++ le32 entry))

/-- The bytes are records one after another. Less than one more may follow. -/
def Records {α : Type} (Writes : α → List UInt8 → Prop) (size : Nat) (records : List α)
    (bytes : List UInt8) : Prop :=
  ∃ parts rest, List.Forall₂ Writes records parts ∧ rest.length < size ∧
    bytes = parts.flatten ++ rest

/-! ## How tables are written -/

/-- The texts start at offsets from a base, inside the image. -/
def Image.HoldsTexts (image : Image) (encoding : Text.Encoding) (base : Nat)
    (offsets : List UInt32) (texts : Array String) : Prop :=
  (∀ offset ∈ offsets, base + offset.toNat < image.size) ∧
    texts.toList = offsets.map fun offset => encoding.decode (image.literalAt (base + offset.toNat))

/-- The chunk has the table: its language, how many texts there are, an unused word, and where the
texts start, counted from the payload on. -/
def Chunk.HoldsTable (image : Image) (encoding : Text.Encoding) (c : Chunk)
    (t : StringTable) : Prop :=
  ∃ (count unused : UInt32) (offsets : List UInt32) (rest : List UInt8),
    offsets.length = count.toNat ∧
    c.payload = le32 t.language.word ++ (le32 count ++ (le32 unused ++
      (offsets.flatMap le32 ++ rest))) ∧
    image.HoldsTexts encoding c.offset offsets t.texts

/-! ## Chunks -/

/-- The records in all chunks of a kind, in their order. -/
def Chunk.Hold {α : Type} (Writes : α → List UInt8 → Prop) (size : Nat) (kind : ChunkKind)
    (chunks : List Chunk) (records : List α) : Prop :=
  ∃ parts, List.Forall₂ (fun c part => Records Writes size part c.payload)
    (Chunk.ofKind kind chunks) parts ∧ records = parts.flatten

/-! ## Images -/

/-- What an image says about scripts and texts, in the order in which it says it. -/
structure Contents where
  scripts : List Script
  flags : List (Int32 × UInt16)
  localCounts : List (Int32 × UInt16)
  tables : List StringTable

/-- What chunks hold. -/
structure Contents.InChunks (image : Image) (encoding : Text.Encoding) (form : ScriptForm)
    (chunks : List Chunk) (c : Contents) : Prop where
  scripts : Chunk.Hold form.Writes form.size .sptr chunks c.scripts
  flags : Chunk.Hold WritesPair 4 .sflg chunks c.flags
  localCounts : Chunk.Hold WritesPair 4 .svct chunks c.localCounts
  tables : List.Forall₂ (Chunk.HoldsTable image encoding) (Chunk.ofKind .strl chunks) c.tables

/-- The bytes by which chunked images of a width are known. -/
def CodeWidth.tag : CodeWidth → List UInt8
  | .wide => [0x41, 0x43, 0x53, 0x45]
  | .compact => [0x41, 0x43, 0x53, 0x65]

/-- The tag of a width stands in front of a directory. -/
def Image.Tagged (image : Image) (directory : UInt32) (width : CodeWidth) : Prop :=
  12 ≤ directory.toNat ∧ image.Stands (directory.toNat - 4) width.tag

/-- The image has a layout, and its header leads to the chunks or to the directory. -/
inductive Image.Leads (image : Image) : Layout → UInt32 → Prop
  | enhanced {width : CodeWidth} {offset : UInt32}
      (header : image.Stands 0 (width.tag ++ le32 offset)) :
    Leads image (.enhanced width) offset
  | legacyChunked {width : CodeWidth} {directory offset : UInt32}
      (header : image.Stands 0 ([0x41, 0x43, 0x53, 0] ++ le32 directory))
      (tagged : image.Tagged directory width)
      (link : image.Stands (directory.toNat - 8) (le32 offset)) :
    Leads image (.legacyChunked width) offset
  | legacy {directory : UInt32}
      (header : image.Stands 0 ([0x41, 0x43, 0x53, 0] ++ le32 directory))
      (untagged : ∀ width, ¬ image.Tagged directory width) :
    Leads image .legacy directory

/-- At the place stand the number of scripts, their records, the number of texts and where the
texts start. -/
def Image.HoldsDirectory (image : Image) (place : Nat) (scripts : List Script)
    (offsets : List UInt32) : Prop :=
  ∃ (count textCount : UInt32) (parts : List (List UInt8)),
    List.Forall₂ DirectoryWrites scripts parts ∧
    scripts.length = count.toNat ∧ offsets.length = textCount.toNat ∧
    image.Stands place (le32 count ++ (parts.flatten ++ (le32 textCount ++ offsets.flatMap le32)))

/-- The form of script records in chunks. -/
def Layout.form? : Layout → Option ScriptForm
  | .legacy => none
  | .legacyChunked _ => some .short
  | .enhanced _ => some .long

/-- The image has a layout, in which it says this. -/
inductive Image.Holds (image : Image) (encoding : Text.Encoding) : Layout → Contents → Prop
  | chunked {layout : Layout} {form : ScriptForm} {offset : UInt32} {chunks : List Chunk}
      {c : Contents} (leads : image.Leads layout offset) (form_eq : layout.form? = some form)
      (inside : offset.toNat ≤ image.size)
      (row : Chunk.Row offset.toNat chunks (image.toList.drop offset.toNat))
      (contents : c.InChunks image encoding form chunks) :
    Holds image encoding layout c
  | legacy {directory : UInt32} {scripts : List Script} {offsets : List UInt32}
      {texts : Array String} (leads : image.Leads .legacy directory)
      (directory : image.HoldsDirectory directory.toNat scripts offsets)
      (texts_eq : image.HoldsTexts encoding 0 offsets texts) :
    Holds image encoding .legacy ⟨scripts, [], [], [⟨.neutral, texts⟩]⟩

/-! ## Reading records -/

/-- The reader takes records of one size from the front as long as there are any. -/
structure Reads {α : Type} (read : List UInt8 → List α) (Writes : α → List UInt8 → Prop)
    (size : Nat) : Prop where
  /-- Enough bytes are a record and more. -/
  exists_record : ∀ bytes, size ≤ bytes.length →
    ∃ r part rest, Writes r part ∧ bytes = part ++ rest
  length : ∀ r part, Writes r part → part.length = size ∧ 0 < size
  short : ∀ bytes, bytes.length < size → read bytes = []
  append : ∀ r part rest, Writes r part → read (part ++ rest) = r :: read rest

section

variable {α : Type} {read : List UInt8 → List α} {Writes : α → List UInt8 → Prop} {size : Nat}

theorem Reads.records (h : Reads read Writes size) (bytes : List UInt8) :
    Records Writes size (read bytes) bytes := by
  induction hlength : bytes.length using Nat.strongRecOn generalizing bytes with
  | ind length ih =>
    by_cases hshort : bytes.length < size
    · rw [h.short bytes hshort]
      exact ⟨[], bytes, .nil, hshort, rfl⟩
    · obtain ⟨r, part, rest, hr, rfl⟩ := h.exists_record bytes (Nat.not_lt.mp hshort)
      obtain ⟨hsize, hpos⟩ := h.length r part hr
      rw [List.length_append] at hlength
      obtain ⟨parts, tail, hparts, htail, heq⟩ := ih rest.length (by omega) rest rfl
      rw [h.append r part rest hr]
      refine ⟨part :: parts, tail, .cons hr hparts, htail, ?_⟩
      rw [List.flatten_cons, List.append_assoc, ← heq]

theorem Reads.records_iff (h : Reads read Writes size) {rs : List α} {bytes : List UInt8} :
    Records Writes size rs bytes ↔ read bytes = rs := by
  constructor
  · rintro ⟨parts, rest, hparts, hrest, rfl⟩
    induction hparts with
    | nil => exact h.short rest hrest
    | cons hr _ ih => rw [List.flatten_cons, List.append_assoc, h.append _ _ _ hr, ih]
  · rintro rfl
    exact h.records bytes

/-- What a reader takes from the chunks of a kind is what they hold. -/
theorem Reads.hold_iff (h : Reads read Writes size) {kind : ChunkKind} {chunks : List Chunk}
    {rs : List α} : Chunk.Hold Writes size kind chunks rs ↔
      rs = ((Chunk.ofKind kind chunks).map (·.payload)).flatMap read := by
  unfold Chunk.Hold
  simp only [h.records_iff]
  have hiff (parts : List (List α)) : List.Forall₂ (fun c part => read c.payload = part)
      (Chunk.ofKind kind chunks) parts ↔
      (Chunk.ofKind kind chunks).map (fun c => read c.payload) = parts := by
    rw [← List.forall₂_map_left_iff (R := (· = ·)) (f := fun c : Chunk => read c.payload),
      List.forall₂_eq_eq_eq]
  simp only [hiff, exists_eq_left', List.flatMap_def, List.map_map]
  rfl

end

theorem reads_shortScripts : Reads Image.shortScripts ScriptForm.short.Writes 8 where
  exists_record := by
    intro bytes h
    obtain ⟨n₀, n₁, tag, argc, rest, rfl, hrest⟩ := exists_four bytes (by omega)
    obtain ⟨e₀, e₁, e₂, e₃, rest, rfl, -⟩ := exists_four rest (by omega)
    refine ⟨_, _, rest, .short (Bytes.ofLe16 n₀ n₁) tag argc (Bytes.ofLe32 e₀ e₁ e₂ e₃), ?_⟩
    rw [Bytes.le16_ofLe16, Bytes.le32_ofLe32]
    rfl
  length := by
    rintro r part ⟨⟩
    exact ⟨rfl, by decide⟩
  short := by
    intro bytes h
    unfold Image.shortScripts
    split
    · simp only [List.length_cons] at h
      omega
    · rfl
  append := by
    rintro r part rest ⟨number, tag, argc, entry⟩
    simp only [Bytes.le16, Bytes.le32, List.cons_append, List.nil_append, Image.shortScripts,
      Bytes.ofLe16_le16, Bytes.ofLe32_le32]

theorem reads_longScripts : Reads Image.longScripts ScriptForm.long.Writes 12 where
  exists_record := by
    intro bytes h
    obtain ⟨n₀, n₁, t₀, t₁, rest, rfl, hrest⟩ := exists_four bytes (by omega)
    obtain ⟨e₀, e₁, e₂, e₃, rest, rfl, hrest'⟩ := exists_four rest (by omega)
    obtain ⟨c₀, c₁, c₂, c₃, rest, rfl, -⟩ := exists_four rest (by omega)
    refine ⟨_, _, rest, .long (Bytes.ofLe16 n₀ n₁) (Bytes.ofLe16 t₀ t₁)
      (Bytes.ofLe32 e₀ e₁ e₂ e₃) (Bytes.ofLe32 c₀ c₁ c₂ c₃), ?_⟩
    rw [Bytes.le16_ofLe16, Bytes.le16_ofLe16, Bytes.le32_ofLe32, Bytes.le32_ofLe32]
    rfl
  length := by
    rintro r part ⟨⟩
    exact ⟨rfl, by decide⟩
  short := by
    intro bytes h
    unfold Image.longScripts
    split
    · simp only [List.length_cons] at h
      omega
    · rfl
  append := by
    rintro r part rest ⟨⟩
    simp only [Bytes.le16, Bytes.le32, List.cons_append, List.nil_append, Image.longScripts,
      Bytes.ofLe16_le16, Bytes.ofLe32_le32]

theorem reads_scriptPairs : Reads Image.scriptPairs WritesPair 4 where
  exists_record := by
    intro bytes h
    obtain ⟨n₀, n₁, v₀, v₁, rest, rfl, -⟩ := exists_four bytes h
    refine ⟨_, _, rest, .pair (Bytes.ofLe16 n₀ n₁) (Bytes.ofLe16 v₀ v₁), ?_⟩
    rw [Bytes.le16_ofLe16, Bytes.le16_ofLe16]
    rfl
  length := by
    rintro r part ⟨⟩
    exact ⟨rfl, by decide⟩
  short := by
    intro bytes h
    unfold Image.scriptPairs
    split
    · simp only [List.length_cons] at h
      omega
    · rfl
  append := by
    rintro r part rest ⟨⟩
    simp only [Bytes.le16, List.cons_append, List.nil_append, Image.scriptPairs,
      Bytes.ofLe16_le16]

/-- The reader for a form of script records. -/
def ScriptForm.read : ScriptForm → List UInt8 → List Script
  | .short => Image.shortScripts
  | .long => Image.longScripts

theorem ScriptForm.reads : ∀ form : ScriptForm, Reads form.read form.Writes form.size
  | .short => reads_shortScripts
  | .long => reads_longScripts

/-! ## Reading texts -/

theorem except_bind_eq_ok_iff {α β ε : Type} {x : Except ε α} {f : α → Except ε β} {b : β} :
    (x >>= f) = .ok b ↔ ∃ a, x = .ok a ∧ f a = .ok b := by
  cases x <;> simp [bind, Except.bind]

theorem except_pure_eq_ok_iff {α ε : Type} {a b : α} :
    (pure a : Except ε α) = .ok b ↔ a = b := by
  simp [pure, Except.pure]

/-- Checked one by one, values are given if all of them pass. -/
theorem mapM_eq_ok_iff {α β ε : Type} {P : α → Prop} [DecidablePred P] {f : α → β} {e : α → ε}
    {xs : List α} {ys : List β} :
    xs.mapM (fun x => if P x then Except.ok (f x) else .error (e x)) = .ok ys ↔
      (∀ x ∈ xs, P x) ∧ ys = xs.map f := by
  induction xs generalizing ys with
  | nil =>
    rw [List.mapM_nil, except_pure_eq_ok_iff]
    simp [eq_comm]
  | cons x rest ih =>
    simp only [List.mapM_cons, except_bind_eq_ok_iff, except_pure_eq_ok_iff, ih]
    by_cases hx : P x
    · simp only [hx, ↓reduceIte, Except.ok.injEq, exists_eq_left', List.forall_mem_cons, true_and,
        List.map_cons]
      constructor
      · rintro ⟨zs, ⟨hrest, rfl⟩, rfl⟩
        exact ⟨hrest, rfl⟩
      · rintro ⟨hrest, rfl⟩
        exact ⟨_, ⟨hrest, rfl⟩, rfl⟩
    · simp [hx]

theorem Image.readTexts_eq_ok_iff {image : Image} {encoding : Text.Encoding} {base : Nat}
    {language : Language} {offsets : List UInt32} {t : StringTable} :
    Image.readTexts image encoding base language offsets = .ok t ↔
      t.language = language ∧ image.HoldsTexts encoding base offsets t.texts := by
  obtain ⟨l, texts⟩ := t
  unfold Image.readTexts Image.HoldsTexts
  simp only [except_bind_eq_ok_iff, except_pure_eq_ok_iff, mapM_eq_ok_iff, StringTable.mk.injEq]
  constructor
  · rintro ⟨ys, ⟨hinside, rfl⟩, rfl, rfl⟩
    exact ⟨rfl, hinside, rfl⟩
  · rintro ⟨rfl, hinside, htexts⟩
    exact ⟨texts.toList, ⟨hinside, htexts⟩, rfl, rfl⟩

theorem Chunk.eq_words_append (bytes : List UInt8) :
    ∃ rest, bytes = (Chunk.words bytes).flatMap le32 ++ rest := by
  fun_induction Chunk.words bytes with
  | case1 a b c d rest ih =>
    obtain ⟨tail, htail⟩ := ih
    refine ⟨tail, ?_⟩
    rw [List.flatMap_cons, Bytes.le32_ofLe32, List.append_assoc, ← htail]
    rfl
  | case2 bytes _ => exact ⟨bytes, rfl⟩

theorem Chunk.holdsTable_iff {image : Image} {encoding : Text.Encoding} {c : Chunk}
    {t : StringTable} :
    c.HoldsTable image encoding t ↔ Image.readTable image encoding c = .ok t := by
  constructor
  · rintro ⟨count, unused, offsets, rest, hcount, hpayload, htexts⟩
    have hwords : Chunk.words c.payload =
        t.language.word :: count :: unused :: (offsets ++ Chunk.words rest) := by
      rw [hpayload, Image.words_le32, Image.words_le32, Image.words_le32, Image.words_flatMap]
    rw [Image.readTable, hwords]
    dsimp only
    rw [if_neg (by simp [hcount]), ← hcount, List.take_left, Image.readTexts_eq_ok_iff]
    exact ⟨rfl, htexts⟩
  · intro h
    obtain ⟨rest, hrest⟩ := Chunk.eq_words_append c.payload
    unfold Image.readTable at h
    split at h
    · rename_i language count unused offsets hwords
      split at h
      · cases h
      · rename_i hcount
        obtain ⟨hlanguage, htexts⟩ := Image.readTexts_eq_ok_iff.mp h
        refine ⟨count, unused, offsets.take count.toNat,
          (offsets.drop count.toNat).flatMap le32 ++ rest, ?_, ?_, htexts⟩
        · exact List.length_take_of_le (Nat.not_lt.mp hcount)
        · rw [hrest, hwords, hlanguage, ← List.append_assoc (List.flatMap _ _),
            ← List.flatMap_append, List.take_append_drop]
          simp only [List.flatMap_cons, List.append_assoc]
    · cases h

/-! ## Reading directories -/

namespace Image

variable {image : Image}

theorem directoryWord_eq_ok_iff {what : String} {place : Nat} {w : UInt32} :
    directoryWord image what place = .ok w ↔ image.Stands place (le32 w) := by
  rw [← word?_eq_some_iff, directoryWord]
  cases image.word? place <;> simp

theorem length_of_directoryWrites {s : Script} {part : List UInt8} (h : DirectoryWrites s part) :
    part.length = 12 := by
  cases h
  rfl

theorem length_flatten_of_directoryWrites {scripts : List Script} {parts : List (List UInt8)}
    (h : List.Forall₂ DirectoryWrites scripts parts) :
    parts.flatten.length = scripts.length * 12 := by
  induction h with
  | nil => rfl
  | cons hs _ ih =>
    rw [List.flatten_cons, List.length_append, ih, length_of_directoryWrites hs, List.length_cons]
    omega

theorem directoryScripts_iff {count place : Nat} {scripts : List Script} :
    directoryScripts image count place = .ok scripts ↔ scripts.length = count ∧
      ∃ parts, List.Forall₂ DirectoryWrites scripts parts ∧ image.Stands place parts.flatten := by
  induction count generalizing place scripts with
  | zero =>
    constructor
    · intro h
      cases h
      exact ⟨rfl, [], .nil, List.nil_prefix⟩
    · rintro ⟨h, -⟩
      rw [List.length_eq_zero_iff.mp h]
      rfl
  | succ count ih =>
    simp only [directoryScripts, except_bind_eq_ok_iff, except_pure_eq_ok_iff, ih,
      directoryWord_eq_ok_iff]
    constructor
    · rintro ⟨packed, hpacked, argc, hargc, entry, hentry, rest, ⟨hlength, parts, hparts, hrest⟩,
        rfl⟩
      refine ⟨congrArg (· + 1) hlength, _, .cons (.script packed argc entry) hparts, ?_⟩
      rw [List.flatten_cons, stands_append, stands_append, stands_append]
      exact ⟨⟨hpacked, hargc, hentry⟩, hrest⟩
    · rintro ⟨hlength, parts, hparts, hstands⟩
      cases hparts with
      | nil => cases hlength
      | cons hscript hrest =>
        obtain ⟨packed, argc, entry⟩ := hscript
        rw [List.flatten_cons, stands_append, stands_append, stands_append] at hstands
        obtain ⟨⟨hpacked, hargc, hentry⟩, hstands⟩ := hstands
        exact ⟨packed, hpacked, argc, hargc, entry, hentry, _,
          ⟨Nat.succ.inj hlength, _, hrest, hstands⟩, rfl⟩

theorem directoryOffsets_iff {count place : Nat} {offsets : List UInt32} :
    directoryOffsets image count place = .ok offsets ↔
      offsets.length = count ∧ image.Stands place (offsets.flatMap le32) := by
  induction count generalizing place offsets with
  | zero =>
    constructor
    · intro h
      cases h
      exact ⟨rfl, List.nil_prefix⟩
    · rintro ⟨h, -⟩
      rw [List.length_eq_zero_iff.mp h]
      rfl
  | succ count ih =>
    simp only [directoryOffsets, except_bind_eq_ok_iff, except_pure_eq_ok_iff, ih,
      directoryWord_eq_ok_iff]
    constructor
    · rintro ⟨offset, hoffset, rest, ⟨hlength, hrest⟩, rfl⟩
      rw [List.flatMap_cons, stands_append]
      exact ⟨congrArg (· + 1) hlength, hoffset, hrest⟩
    · rintro ⟨hlength, hstands⟩
      cases offsets with
      | nil => cases hlength
      | cons offset rest =>
        rw [List.flatMap_cons, stands_append] at hstands
        exact ⟨offset, hstands.1, rest, ⟨Nat.succ.inj hlength, hstands.2⟩, rfl⟩

theorem holdsDirectory_iff {place : Nat} {scripts : List Script} {offsets : List UInt32} :
    image.HoldsDirectory place scripts offsets ↔ ∃ count textCount : UInt32,
      image.Stands place (le32 count) ∧
      directoryScripts image count.toNat (place + 4) = .ok scripts ∧
      image.Stands (place + 4 + count.toNat * 12) (le32 textCount) ∧
      directoryOffsets image textCount.toNat (place + 4 + count.toNat * 12 + 4) = .ok offsets := by
  have hword (v : UInt32) : (le32 v).length = 4 := rfl
  simp only [directoryScripts_iff, directoryOffsets_iff]
  constructor
  · rintro ⟨count, textCount, parts, hparts, hscripts, hoffsets, hstands⟩
    simp only [stands_append, hword, length_flatten_of_directoryWrites hparts, hscripts] at hstands
    obtain ⟨hcount, hrecords, htextCount, htexts⟩ := hstands
    exact ⟨count, textCount, hcount, ⟨hscripts, parts, hparts, hrecords⟩, htextCount, hoffsets,
      htexts⟩
  · rintro ⟨count, textCount, hcount, ⟨hscripts, parts, hparts, hrecords⟩, htextCount, hoffsets,
      htexts⟩
    refine ⟨count, textCount, parts, hparts, hscripts, hoffsets, ?_⟩
    simp only [stands_append, hword, length_flatten_of_directoryWrites hparts, hscripts]
    exact ⟨hcount, hrecords, htextCount, htexts⟩

/-! ## An image holds one thing -/

theorem Stands.word_unique {place : Nat} {v w : UInt32} (h : image.Stands place (le32 v))
    (h' : image.Stands place (le32 w)) : v = w :=
  Option.some.inj ((word?_of_stands h).symm.trans (word?_of_stands h'))

theorem HoldsDirectory.unique {place : Nat} {scripts scripts' : List Script}
    {offsets offsets' : List UInt32} (h : image.HoldsDirectory place scripts offsets)
    (h' : image.HoldsDirectory place scripts' offsets') :
    scripts = scripts' ∧ offsets = offsets' := by
  rw [holdsDirectory_iff] at h h'
  obtain ⟨count, textCount, hcount, hscripts, htextCount, hoffsets⟩ := h
  obtain ⟨count', textCount', hcount', hscripts', htextCount', hoffsets'⟩ := h'
  obtain rfl := hcount.word_unique hcount'
  obtain rfl := htextCount.word_unique htextCount'
  exact ⟨Except.ok.inj (hscripts.symm.trans hscripts'),
    Except.ok.inj (hoffsets.symm.trans hoffsets')⟩

theorem header_unique {xs ys : List UInt8} {v w : UInt32} (h : image.Stands 0 (xs ++ le32 v))
    (h' : image.Stands 0 (ys ++ le32 w)) (hlength : xs.length = ys.length) : xs = ys ∧ v = w := by
  rw [stands_append] at h h'
  exact ⟨h.1.unique h'.1 hlength, (hlength ▸ h.2).word_unique h'.2⟩

theorem tag_injective {width width' : CodeWidth} (h : width.tag = width'.tag) :
    width = width' := by
  cases width <;> cases width' <;> first | rfl | exact absurd h (by decide)

theorem length_tag (width : CodeWidth) : width.tag.length = 4 := by cases width <;> rfl

theorem tag_ne (width : CodeWidth) : width.tag ≠ [0x41, 0x43, 0x53, 0] := by
  cases width <;> decide

theorem Tagged.unique {directory : UInt32} {width width' : CodeWidth}
    (h : image.Tagged directory width) (h' : image.Tagged directory width') : width = width' := by
  apply tag_injective
  apply h.2.unique h'.2
  rw [length_tag, length_tag]

theorem Leads.unique {layout layout' : Layout} {offset offset' : UInt32}
    (h : image.Leads layout offset) (h' : image.Leads layout' offset') :
    layout = layout' ∧ offset = offset' := by
  cases h with
  | enhanced header =>
    cases h' with
    | enhanced header' =>
      obtain ⟨htag, rfl⟩ := header_unique header header' (by rw [length_tag, length_tag])
      rw [tag_injective htag]
      exact ⟨rfl, rfl⟩
    | legacyChunked header' | legacy header' =>
      exact absurd (header_unique header header' (length_tag _)).1 (tag_ne _)
  | legacyChunked header tagged link =>
    cases h' with
    | enhanced header' =>
      exact absurd (header_unique header' header (length_tag _)).1 (tag_ne _)
    | legacyChunked header' tagged' link' =>
      obtain ⟨-, rfl⟩ := header_unique header header' rfl
      rw [tagged.unique tagged']
      exact ⟨rfl, link.word_unique link'⟩
    | legacy header' untagged =>
      obtain ⟨-, rfl⟩ := header_unique header header' rfl
      exact absurd tagged (untagged _)
  | legacy header untagged =>
    cases h' with
    | enhanced header' =>
      exact absurd (header_unique header' header (length_tag _)).1 (tag_ne _)
    | legacyChunked header' tagged =>
      obtain ⟨-, rfl⟩ := header_unique header header' rfl
      exact absurd tagged (untagged _)
    | legacy header' =>
      exact ⟨rfl, (header_unique header header' rfl).2⟩

theorem HoldsTexts.unique {encoding : Text.Encoding} {base : Nat} {offsets : List UInt32}
    {texts texts' : Array String} (h : image.HoldsTexts encoding base offsets texts)
    (h' : image.HoldsTexts encoding base offsets texts') : texts = texts' :=
  Array.toList_inj.mp (h.2.trans h'.2.symm)

end Image

theorem Contents.InChunks.unique {image : Image} {encoding : Text.Encoding} {form : ScriptForm}
    {chunks : List Chunk} {c c' : Contents} (h : c.InChunks image encoding form chunks)
    (h' : c'.InChunks image encoding form chunks) : c = c' := by
  have hscripts := form.reads.hold_iff.mp h.scripts
  have hflags := reads_scriptPairs.hold_iff.mp h.flags
  have hcounts := reads_scriptPairs.hold_iff.mp h.localCounts
  have htables : c.tables = c'.tables := by
    refine List.right_unique_forall₂' (fun c t t' ht ht' => ?_) h.tables h'.tables
    rw [Chunk.holdsTable_iff] at ht ht'
    exact Except.ok.inj (ht.symm.trans ht')
  rw [← form.reads.hold_iff.mp h'.scripts] at hscripts
  rw [← reads_scriptPairs.hold_iff.mp h'.flags] at hflags
  rw [← reads_scriptPairs.hold_iff.mp h'.localCounts] at hcounts
  cases c
  cases c'
  simp only at hscripts hflags hcounts htables
  rw [hscripts, hflags, hcounts, htables]

/-- What an image holds does not depend on how it is taken apart. -/
theorem Image.Holds.unique {image : Image} {encoding : Text.Encoding} {layout layout' : Layout}
    {c c' : Contents} (h : image.Holds encoding layout c)
    (h' : image.Holds encoding layout' c') : layout = layout' ∧ c = c' := by
  cases h with
  | chunked leads form_eq _ row contents =>
    cases h' with
    | chunked leads' form_eq' _ row' contents' =>
      obtain ⟨rfl, rfl⟩ := leads.unique leads'
      obtain rfl := Option.some.inj (form_eq.symm.trans form_eq')
      rw [Chunk.row_iff] at row row'
      obtain rfl := Except.ok.inj (row.symm.trans row')
      exact ⟨rfl, contents.unique contents'⟩
    | legacy leads' =>
      obtain ⟨rfl, -⟩ := leads.unique leads'
      cases form_eq
  | legacy leads directory texts_eq =>
    cases h' with
    | chunked leads' form_eq' =>
      obtain ⟨rfl, -⟩ := leads.unique leads'
      cases form_eq'
    | legacy leads' directory' texts_eq' =>
      obtain ⟨-, rfl⟩ := leads.unique leads'
      obtain ⟨rfl, rfl⟩ := directory.unique directory'
      rw [texts_eq.unique texts_eq']
      exact ⟨rfl, rfl⟩

/-! ## Records have no flags -/

theorem forall_of_forall₂ {α β : Type} {R : α → β → Prop} {P : α → Prop} {xs : List α}
    {ys : List β} (hP : ∀ x y, R x y → P x) (h : List.Forall₂ R xs ys) : ∀ x ∈ xs, P x :=
  ((List.forall₂_and_left xs ys).mp (h.imp fun x y hxy => ⟨hP x y hxy, hxy⟩)).1

theorem Chunk.Hold.forall_of_writes {α : Type} {Writes : α → List UInt8 → Prop} {size : Nat}
    {P : α → Prop} {kind : ChunkKind} {chunks : List Chunk} {rs : List α}
    (hP : ∀ r part, Writes r part → P r) (h : Chunk.Hold Writes size kind chunks rs) :
    ∀ r ∈ rs, P r := by
  obtain ⟨parts, hparts, rfl⟩ := h
  have hall : ∀ part ∈ parts, ∀ r ∈ part, P r := by
    refine forall_of_forall₂ (fun part c hrecords => ?_) hparts.flip
    obtain ⟨pieces, rest, hpieces, -⟩ := hrecords
    exact forall_of_forall₂ hP hpieces
  intro r hr
  obtain ⟨part, hpart, hmem⟩ := List.mem_flatten.mp hr
  exact hall part hpart r hmem

/-- The record of a script tells neither flags nor a number of variables. -/
theorem Image.Holds.bare {image : Image} {encoding : Text.Encoding} {layout : Layout}
    {c : Contents} (h : image.Holds encoding layout c) :
    ∀ s ∈ c.scripts, s.flags = .none ∧ s.localCount = none := by
  cases h with
  | chunked _ _ _ _ contents =>
    refine contents.scripts.forall_of_writes ?_
    rintro s part ⟨⟩ <;> exact ⟨rfl, rfl⟩
  | legacy _ directory _ =>
    obtain ⟨_, _, parts, hparts, -⟩ := directory
    refine forall_of_forall₂ ?_ hparts
    rintro s part ⟨⟩
    exact ⟨rfl, rfl⟩

end LevelScript
