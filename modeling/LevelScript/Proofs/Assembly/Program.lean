import LevelScript.Proofs.Assembly.Records
import LevelScript.Proofs.Assembly.Tokens
import LevelScript.Proofs.Image.Loading

/-!
# Assembled images load

The chunks of an assembled image are read back as what was put into them. So loading gives a
program that, offsets apart, does not depend on the layout.

* `Draft.payloads`: what the chunks of each kind hold.
* `Draft.program`: the program of a draft.
* `Draft.gives_load`: loading the image of a draft gives its program.
-/

namespace LevelScript.Assembly.Draft

open Image (IsShort recorded tableRead)

/-! ## Payloads -/

/-- The payload, unless it is empty. -/
def unlessEmpty (payload : List UInt8) : List (List UInt8) :=
  if payload.isEmpty then [] else [payload]

/-- What the chunks of a kind hold. -/
def payloads (d : Draft) (script : Script → List UInt8) (encoding : Text.Encoding) :
    ChunkKind → List (List UInt8)
  | .sptr => [d.scripts.flatMap script]
  | .sflg => unlessEmpty (d.scripts.flatMap flagsRecord)
  | .svct => unlessEmpty (d.scripts.flatMap localsRecord)
  | .func => unlessEmpty (d.functions.toList.flatMap functionRecord)
  | .aray => unlessEmpty (d.arrays.flatMap fun a => Bytes.le32 a.slot ++ Bytes.le32 a.size)
  | .aini => (d.arrays.zipIdx.filter fun a => !a.1.init.isEmpty).map fun a =>
      Bytes.le32 a.2.toUInt32 ++ intBytes a.1.init
  | .mini => d.mapInits.map fun m => Bytes.le32 m.1 ++ intBytes m.2
  | .strl => (d.tables.filter fun t => !t.2.isEmpty).map fun t => tablePayload encoding t.1 t.2

/-- Kinds of chunks in the order in which they are written. -/
def kinds : List ChunkKind := [.sptr, .sflg, .svct, .func, .aray, .aini, .mini, .strl]

/-- The chunks of a draft. -/
def pieces (d : Draft) (script : Script → List UInt8) (encoding : Text.Encoding) :
    List (ChunkKind × List UInt8) :=
  kinds.flatMap fun kind => (d.payloads script encoding kind).map (kind, ·)

theorem sequence_unlessEmpty (kind : ChunkKind) (payload : List UInt8) :
    Chunk.sequence ((unlessEmpty payload).map (kind, ·)) = chunkUnlessEmpty kind payload := by
  unfold unlessEmpty chunkUnlessEmpty
  split <;> simp [Chunk.sequence, chunk]

theorem sequence_filter {α : Type} (kind : ChunkKind) (drop : α → Bool) (payload : α → List UInt8)
    (xs : List α) :
    Chunk.sequence (((xs.filter (!drop ·)).map payload).map (kind, ·)) =
      xs.flatMap fun x => if drop x then [] else chunk kind (payload x) := by
  induction xs with
  | nil => rfl
  | cons x rest ih =>
    rw [List.flatMap_cons, ← ih, List.filter_cons]
    cases drop x <;> simp [Chunk.sequence, chunk]

theorem sequence_append (ps qs : List (ChunkKind × List UInt8)) :
    Chunk.sequence (ps ++ qs) = Chunk.sequence ps ++ Chunk.sequence qs :=
  List.flatMap_append

theorem chunks_eq (d : Draft) (script : Script → List UInt8) (encoding : Text.Encoding) :
    d.chunks script encoding = Chunk.sequence (d.pieces script encoding) := by
  have hmini : Chunk.sequence ((d.payloads script encoding .mini).map (.mini, ·)) =
      d.mapInits.flatMap fun m => chunk .mini (Bytes.le32 m.1 ++ intBytes m.2) := by
    rw [payloads, List.map_map, Chunk.sequence, List.flatMap_map]
    rfl
  have haini : Chunk.sequence ((d.payloads script encoding .aini).map (.aini, ·)) =
      d.arrays.zipIdx.flatMap arrayInitChunk := sequence_filter _ _ _ _
  have hstrl : Chunk.sequence ((d.payloads script encoding .strl).map (.strl, ·)) =
      d.tables.flatMap (tableChunk encoding) := sequence_filter _ _ _ _
  have hsptr : Chunk.sequence ((d.payloads script encoding .sptr).map (.sptr, ·)) =
      chunk .sptr (d.scripts.flatMap script) := by simp [payloads, Chunk.sequence, chunk]
  simp only [pieces, kinds, List.flatMap_cons, List.flatMap_nil, sequence_append, hmini, haini,
    hstrl, hsptr]
  simp only [payloads, sequence_unlessEmpty, chunks, List.append_assoc,
    show Chunk.sequence [] = [] from rfl, List.append_nil]

/-- The chunks of a kind hold the payloads of the kind. -/
theorem filter_pieces (d : Draft) (script : Script → List UInt8) (encoding : Text.Encoding)
    (kind : ChunkKind) :
    (d.pieces script encoding).filter (·.1 == kind) =
      (d.payloads script encoding kind).map (kind, ·) := by
  have hsame : ∀ k, ((d.payloads script encoding k).map (k, ·)).filter (·.1 == kind) =
      if k == kind then (d.payloads script encoding k).map (k, ·) else [] := by
    intro k
    split
    · rename_i hk
      rw [List.filter_eq_self]
      exact List.forall_mem_map.mpr fun _ _ => hk
    · rename_i hk
      rw [List.filter_eq_nil_iff]
      exact List.forall_mem_map.mpr fun _ _ => hk
  simp only [pieces, kinds, List.flatMap_cons, List.flatMap_nil, List.filter_append, hsame]
  cases kind <;> simp

theorem forall₂_ofKind {image : Image} {d : Draft} {script : Script → List UInt8}
    {encoding : Text.Encoding} {offset : Nat}
    (h : image.Stands offset (Chunk.sequence (d.pieces script encoding))) (kind : ChunkKind) :
    List.Forall₂ (Chunk.HasAt image)
      (Chunk.ofKind kind (Chunk.placed offset (d.pieces script encoding)))
      (d.payloads script encoding kind) := by
  have hplaced := Chunk.ofKind_placed kind h
  rwa [filter_pieces, List.forall₂_map_right_iff] at hplaced

/-! ## Programs -/

/-- The flags of a script, if it has any. -/
def flagBits (s : Script) : Option UInt16 := if s.flags == .none then none else some s.flags.bits

/-- The scripts with flags and variable counts, as they are read. -/
def unsorted (d : Draft) : List Script :=
  let flagged := (d.scripts.filterMap fun s => (flagBits s).map (s.number, ·)).foldl
    (fun scripts pair =>
      Image.modifyScript pair.1 (fun s => { s with flags := .truncate pair.2 }) scripts)
    (d.scripts.map recorded)
  (d.scripts.filterMap fun s => s.localCount.map (s.number, ·)).foldl
    (fun scripts pair =>
      Image.modifyScript pair.1 (fun s => { s with localCount := some pair.2 }) scripts)
    flagged

/-- The script as its record has it in a layout with chunks. -/
def recordedIn : Layout → Script → Script
  | .legacyChunked _ => Image.shortRecorded
  | _ => Image.longRecorded

/-- The scripts with flags and variable counts, as they are read even if numbers are too large for
their records. -/
def readScripts (d : Draft) (layout : Layout) : List Script :=
  let flagged := (Image.scriptPairs (d.scripts.flatMap flagsRecord)).foldl
    (fun scripts pair =>
      Image.modifyScript pair.1 (fun s => { s with flags := .truncate pair.2 }) scripts)
    (d.scripts.map (recordedIn layout))
  (Image.scriptPairs (d.scripts.flatMap localsRecord)).foldl
    (fun scripts pair =>
      Image.modifyScript pair.1 (fun s => { s with localCount := some pair.2 }) scripts)
    flagged

/-- The memory of a map at first. -/
def memory (d : Draft) : MapMemory :=
  let bound := d.arrays.foldl (fun m a => Image.declared m (a.slot, a.size)) .empty
  let filled := (d.arrays.zipIdx.filter fun a => !a.1.init.isEmpty).foldl
    (fun m a => Image.filled m a.2.toUInt32 (a.1.init.map Int32.toUInt32)) bound
  d.mapInits.foldl (fun m r => Image.assigned m r.1 (r.2.map Int32.toUInt32)) filled

/-- The texts, written in one encoding and read in another. -/
def strings (d : Draft) (encoding reading : Text.Encoding) : Strings :=
  (d.tables.filter fun t => !t.2.isEmpty).foldl
    (fun s t => s.insert (tableRead encoding reading t)) .empty

/-- The program of a draft. -/
def program (d : Draft) (layout : Layout) (encoding reading : Text.Encoding) : Program where
  image := d.image encoding layout
  layout := layout
  scripts := Image.dropRepeated (d.unsorted.mergeSort fun s t => s.number ≤ t.number)
  functions := d.functions
  strings := d.strings encoding reading
  memory := d.memory

/-- The record of a script in a layout with chunks. -/
def scriptRecord : Layout → Script → List UInt8
  | .legacyChunked _ => shortScript
  | _ => longScript

/-- What records have room for. -/
structure Loadable (d : Draft) (layout : Layout) : Prop where
  numbers : ∀ s ∈ d.scripts, IsShort s.number
  tags : ∀ width, layout = .legacyChunked width → ∀ s ∈ d.scripts, s.typeTag ≤ 255
  arrays : ∀ a ∈ d.arrays, a.size.toNat ≤ Image.maxArrayLength

/-! ## Reading chunks -/

open Loading

theorem forall_modifyScript {P : UInt32 → Prop} {number : Int32} {f : Script → Script}
    (hf : ∀ s, (f s).entry = s.entry) {scripts : List Script} (h : ∀ s ∈ scripts, P s.entry) :
    ∀ s ∈ Image.modifyScript number f scripts, P s.entry := by
  induction scripts with
  | nil => exact h
  | cons s rest ih =>
    have hs := h s List.mem_cons_self
    have hrest : ∀ s ∈ rest, P s.entry := fun s hs => h s (List.mem_cons_of_mem _ hs)
    rw [Image.modifyScript]
    split
    · exact List.forall_mem_cons.mpr ⟨hf s ▸ hs, hrest⟩
    · exact List.forall_mem_cons.mpr ⟨hs, ih hrest⟩

theorem forall_foldl_modifyScript {P : UInt32 → Prop} (set : UInt16 → Script → Script)
    (hset : ∀ v s, (set v s).entry = s.entry) (pairs : List (Int32 × UInt16))
    {scripts : List Script} (h : ∀ s ∈ scripts, P s.entry) :
    ∀ s ∈ pairs.foldl (fun scripts pair => Image.modifyScript pair.1 (set pair.2) scripts) scripts,
      P s.entry := by
  induction pairs generalizing scripts with
  | nil => exact h
  | cons pair rest ih => exact ih (forall_modifyScript (hset pair.2) h)

/-- Entries are those of the declared scripts. -/
theorem forall_readScripts {P : UInt32 → Prop} {d : Draft} (layout : Layout)
    (h : ∀ s ∈ d.scripts, P s.entry) : ∀ s ∈ d.readScripts layout, P s.entry := by
  have hrecorded : ∀ s ∈ d.scripts.map (recordedIn layout), P s.entry := by
    refine List.forall_mem_map.mpr fun s hs => ?_
    have hentry : (recordedIn layout s).entry = s.entry := by cases layout <;> rfl
    exact hentry ▸ h s hs
  have hflagged := forall_foldl_modifyScript (fun v s => { s with flags := .truncate v })
    (fun _ _ => rfl) (Image.scriptPairs (d.scripts.flatMap flagsRecord)) hrecorded
  exact forall_foldl_modifyScript (fun v s => { s with localCount := some v }) (fun _ _ => rfl) _
    hflagged

section Chunks

variable {image : Image} {d : Draft} {layout : Layout} {encoding reading : Text.Encoding}
  {offset : Nat}

/-- An empty payload holds no records, so it makes no difference that it is not written. -/
theorem flatMap_unlessEmpty {α : Type} {read : List UInt8 → List α} (h : read [] = [])
    (payload : List UInt8) : (unlessEmpty payload).flatMap read = read payload := by
  unfold unlessEmpty
  split
  · rename_i hempty
    rw [List.isEmpty_iff.mp hempty, h, List.flatMap_nil]
  · exact List.flatMap_singleton ..

/-- Values for scripts are read from a chunk that may be missing. -/
theorem gives_pairs (kind : ChunkKind) (set : UInt16 → Script → Script) (payload : List UInt8)
    (scripts : List Script) :
    Gives (((unlessEmpty payload).flatMap Image.scriptPairs).foldlM
      (Image.applyPair kind set) scripts)
      ((Image.scriptPairs payload).foldl
        (fun scripts pair => Image.modifyScript pair.1 (set pair.2) scripts) scripts) := by
  rw [flatMap_unlessEmpty rfl]
  exact gives_foldlM (List.forall₂_same.mpr fun _ _ => rfl)
    (fun scripts pair _ heq => heq ▸ Image.gives_applyPair kind set scripts pair) _

theorem flagsRecord_eq (s : Script) : flagsRecord s = match flagBits s with
    | some v => numberBytes s.number ++ Bytes.le16 v
    | none => [] := by
  unfold flagsRecord flagBits
  split <;> rfl

theorem records_eq (d : Draft) (layout : Layout) :
    (if layout matches .legacyChunked _ then Image.shortScripts else Image.longScripts)
      (d.scripts.flatMap (scriptRecord layout)) = d.scripts.map (recordedIn layout) := by
  cases layout with
  | legacyChunked width => exact Image.shortScripts_flatMap d.scripts
  | legacy => exact Image.longScripts_flatMap d.scripts
  | enhanced width => exact Image.longScripts_flatMap d.scripts

/-- Records that have room for the scripts lose nothing of them. -/
theorem readScripts_eq (h : d.Loadable layout) : d.readScripts layout = d.unsorted := by
  have hrecorded : d.scripts.map (recordedIn layout) = d.scripts.map recorded := by
    refine List.map_congr_left fun s hs => ?_
    cases layout with
    | legacyChunked width =>
      exact Image.shortRecorded_of_short (h.numbers s hs) (h.tags width rfl s hs)
    | legacy => exact Image.longRecorded_of_short (h.numbers s hs)
    | enhanced width => exact Image.longRecorded_of_short (h.numbers s hs)
  have hlocals : Image.scriptPairs (d.scripts.flatMap localsRecord) =
      d.scripts.filterMap fun s => s.localCount.map (s.number, ·) :=
    Image.scriptPairs_records (fun _ => rfl) h.numbers
  rw [readScripts, hrecorded, Image.scriptPairs_records flagsRecord_eq h.numbers, hlocals]
  rfl

theorem gives_arrays (harrays : ∀ a ∈ d.arrays, a.size.toNat ≤ Image.maxArrayLength)
    {chunks : List Chunk}
    (h : List.Forall₂ (Chunk.HasAt image) chunks
      (d.payloads (scriptRecord layout) encoding .aray)) :
    Gives (chunks.foldlM
      (fun m chunk => (Image.wordPairs (Chunk.words chunk.payload)).foldlM
        (Image.declareArray chunk) m) .empty)
      (d.arrays.foldl (fun m a => Image.declared m (a.slot, a.size)) .empty) := by
  have hpairs := Image.wordPairs_records ArrayDraft.slot ArrayDraft.size d.arrays
  have hchunk : ∀ (m : MapMemory) (c : Chunk), c.payload =
      d.arrays.flatMap (fun a => Bytes.le32 a.slot ++ Bytes.le32 a.size) →
      Gives ((Image.wordPairs (Chunk.words c.payload)).foldlM (Image.declareArray c) m)
        (d.arrays.foldl (fun m a => Image.declared m (a.slot, a.size)) m) := by
    intro m c hc
    rw [hc, hpairs, ← List.foldl_map (f := fun a : ArrayDraft => (a.slot, a.size))]
    refine gives_foldlM (R := fun x y => x = y ∧ x.2.toNat ≤ Image.maxArrayLength) ?_
      (fun m x y hxy => hxy.1 ▸ Image.gives_declareArray c m hxy.2) m
    refine List.forall₂_same.mpr fun x hx => ⟨rfl, ?_⟩
    obtain ⟨a, ha, rfl⟩ := List.mem_map.mp hx
    exact harrays a ha
  rw [payloads] at h
  unfold unlessEmpty at h
  split at h
  · rename_i hempty
    cases h
    have hnone : d.arrays = [] := by
      rw [List.isEmpty_iff, List.flatMap_eq_nil_iff] at hempty
      exact List.eq_nil_iff_forall_not_mem.mpr fun a ha =>
        absurd (hempty a ha) (by simp [Bytes.le32])
    rw [hnone]
    exact gives_pure _
  · cases h with
    | cons hc hrest =>
      cases hrest
      rw [List.foldlM_cons]
      exact gives_bind (hchunk _ _ hc.1) (gives_pure _)

theorem gives_fill {chunks : List Chunk}
    (h : List.Forall₂ (Chunk.HasAt image) chunks
      (d.payloads (scriptRecord layout) encoding .aini)) (m : MapMemory) :
    Gives (chunks.foldlM Image.initArray m)
      ((d.arrays.zipIdx.filter fun a => !a.1.init.isEmpty).foldl
        (fun m a => Image.filled m a.2.toUInt32 (a.1.init.map Int32.toUInt32)) m) := by
  rw [payloads, List.forall₂_map_right_iff] at h
  refine gives_foldlM h (fun m c a hc => Image.gives_initArray m ?_) m
  rw [hc.1, Image.words_le32, Image.words_intBytes]

theorem gives_assign {chunks : List Chunk}
    (h : List.Forall₂ (Chunk.HasAt image) chunks
      (d.payloads (scriptRecord layout) encoding .mini)) (m : MapMemory) :
    Gives (chunks.foldlM Image.initVars m)
      (d.mapInits.foldl (fun m r => Image.assigned m r.1 (r.2.map Int32.toUInt32)) m) := by
  rw [payloads, List.forall₂_map_right_iff] at h
  refine gives_foldlM h (fun m c r hc => Image.gives_initVars m ?_) m
  rw [hc.1, Image.words_le32, Image.words_intBytes]

/-- A table is read from the chunk that has it. -/
theorem readTable_of_hasAt (hsize : image.size < 2 ^ 32) {c : Chunk} {t : Language × List String}
    (h : Chunk.HasAt image c (tablePayload encoding t.1 t.2)) (reading : Text.Encoding) :
    Image.readTable image reading c = .ok (tableRead encoding reading t) := by
  have hstands : image.Stands c.offset c.payload := h.1 ▸ h.2
  have hlength : c.payload.length < 2 ^ 32 := by
    obtain hnil | hne := eq_or_ne c.payload []
    · simp [hnil]
    · have hle := hstands.le hne
      omega
  exact Image.readTable_payload encoding reading t h.1 hstands hlength

theorem gives_strings (hsize : image.size < 2 ^ 32) {chunks : List Chunk}
    (h : List.Forall₂ (Chunk.HasAt image) chunks
      (d.payloads (scriptRecord layout) encoding .strl)) :
    Gives (chunks.foldlM
      (fun strings chunk => do
        Image.insertTable strings (← Loading.ofExcept (Image.readTable image reading chunk)))
      Strings.empty) (d.strings encoding reading) := by
  rw [payloads, List.forall₂_map_right_iff] at h
  refine gives_foldlM h (fun strings c t hc => ?_) Strings.empty
  exact gives_bind (gives_ofExcept (readTable_of_hasAt hsize hc reading))
    (Image.gives_insertTable strings _)

/-- Reading the chunks of a draft gives its program. Script numbers that are too large for their
records are read as others. -/
theorem gives_loadChunks (harrays : ∀ a ∈ d.arrays, a.size.toNat ≤ Image.maxArrayLength)
    (himage : image = d.image encoding layout) (hsize : image.size < 2 ^ 32)
    (hstands : image.Stands offset (Chunk.sequence (d.pieces (scriptRecord layout) encoding)))
    (hscripts : ∀ s ∈ d.scripts, s.entry.toNat < image.size)
    (hfunctions : ∀ f ∈ d.functions.toList, f.isImported = false → f.entry.toNat < image.size) :
    Gives (Image.loadChunks image reading layout
      (Chunk.placed offset (d.pieces (scriptRecord layout) encoding)))
      { d.program layout encoding reading with
        scripts := Image.dropRepeated
          ((d.readScripts layout).mergeSort fun s t => s.number ≤ t.number) } := by
  have hkinds := forall₂_ofKind hstands
  have hpayloads : ∀ kind, (Chunk.ofKind kind (Chunk.placed offset
      (d.pieces (scriptRecord layout) encoding))).map (·.payload) =
        d.payloads (scriptRecord layout) encoding kind := by
    intro kind
    rw [← List.forall₂_eq_eq_eq, List.forall₂_map_left_iff]
    exact (hkinds kind).imp fun _ _ hc => hc.1
  have hread : ∀ s ∈ d.readScripts layout, s.entry.toNat < image.size :=
    forall_readScripts (P := fun entry => entry.toNat < image.size) layout hscripts
  have hfind : d.functions.toList.find?
      (fun f => !f.isImported && image.size ≤ f.entry.toNat) = none := by
    rw [List.find?_eq_none]
    intro f hf
    simpa using hfunctions f hf
  unfold Image.loadChunks
  simp only [hpayloads]
  rw [payloads, List.flatMap_singleton]
  erw [records_eq d layout]
  refine gives_bind (gives_pairs .sflg _ _ _) ?_
  refine gives_bind (gives_pairs .svct _ _ _) ?_
  refine gives_bind (gives_arrays harrays (hkinds .aray)) ?_
  refine gives_bind (gives_fill (hkinds .aini) _) ?_
  refine gives_bind (gives_assign (hkinds .mini) _) ?_
  refine gives_bind (gives_strings hsize (hkinds .strl)) ?_
  refine gives_bind (Image.gives_finishScripts hread) ?_
  rw [payloads, flatMap_unlessEmpty rfl, Image.functionRecords_records, hfind, himage]
  exact gives_pure _

/-- The chunks of a draft are found where they start. -/
theorem loadChunked_eq (hsize : image.size < 2 ^ 32) (hoffset : offset ≤ image.size)
    (hdrop : image.toList.drop offset = Chunk.sequence (d.pieces (scriptRecord layout) encoding))
    (reading : Text.Encoding) :
    Image.loadChunked image reading layout offset = Image.loadChunks image reading layout
      (Chunk.placed offset (d.pieces (scriptRecord layout) encoding)) := by
  have hlength :
      (Chunk.sequence (d.pieces (scriptRecord layout) encoding)).length ≤ image.size := by
    have hlist : image.toList.length = image.size := Array.length_toList
    rw [← hdrop, List.length_drop]
    omega
  have hpayloads : ∀ p ∈ d.pieces (scriptRecord layout) encoding, p.2.length < 2 ^ 32 := by
    intro p hp
    have hle := Chunk.length_le_sequence hp
    omega
  unfold Image.loadChunked
  rw [if_neg (Nat.not_lt.mpr hoffset), hdrop, Chunk.split_sequence offset hpayloads]
  rfl

end Chunks

/-! ## Images -/

/-- What stands in front of the code. -/
def head (size : Nat) : Layout → List UInt8
  | .legacy => []
  | .legacyChunked _ => [0x41, 0x43, 0x53, 0] ++ Bytes.le32 (size.toUInt32 + 8)
  | .enhanced width => [0x41, 0x43, 0x53, widthTag width] ++ Bytes.le32 size.toUInt32

/-- What stands between the code and the chunks. -/
def link (size : Nat) : Layout → List UInt8
  | .legacyChunked width => Bytes.le32 (size.toUInt32 + 16) ++
      [0x41, 0x43, 0x53, widthTag width] ++ (Bytes.le32 0 ++ Bytes.le32 0)
  | _ => []

theorem withHeader_toList {image : Image} {rest : List UInt8}
    (h : image.toList = List.replicate headerLength 0 ++ rest) (tag : UInt8) (w : UInt32) :
    (withHeader image tag w).toList = [0x41, 0x43, 0x53, tag] ++ Bytes.le32 w ++ rest := by
  have himage : image.toList = [] ++ List.replicate headerLength 0 ++ rest := h
  exact overwrite_toList himage rfl rfl

section Images

variable {d : Draft} {items : List CodeItem} {layout : Layout}

theorem length_head (size : Nat) (hlayout : layout ≠ .legacy) :
    (head size layout).length = headerLength := by
  cases layout with
  | legacy => exact absurd rfl hlayout
  | _ => rfl

variable (h : d.Holds items)
include h

theorem Holds.size_resolved :
    d.resolved.size = Token.reach d.width headerLength (tokens items) := by
  rw [← Array.length_toList, h.resolved, List.length_append, List.length_replicate,
    Token.length_spell]

variable (hlayout : layout ≠ .legacy)
include hlayout

/-- An image with chunks: a head, the code, a link in some layouts, and the chunks. -/
theorem Holds.image_toList (encoding : Text.Encoding) :
    (d.image encoding layout).toList = head d.resolved.size layout ++
      (Token.spell d.width d.labelOffset headerLength (tokens items) ++
        (link d.resolved.size layout ++ d.chunks (scriptRecord layout) encoding)) := by
  cases layout with
  | legacy => exact absurd rfl hlayout
  | legacyChunked width =>
    refine withHeader_toList ?_ _ _
    simp only [Array.toList_appendList, h.resolved, link, scriptRecord, List.append_assoc]
  | enhanced width =>
    refine withHeader_toList ?_ _ _
    simp only [Array.toList_appendList, h.resolved, link, scriptRecord, List.append_assoc]
    rfl

/-- Where the parts of an image stand. -/
theorem Holds.stands (encoding : Text.Encoding) :
    (d.image encoding layout).Stands headerLength
        (Token.spell d.width d.labelOffset headerLength (tokens items)) ∧
      (d.image encoding layout).Stands d.resolved.size (link d.resolved.size layout) ∧
      (d.image encoding layout).toList.drop
          (d.resolved.size + (link d.resolved.size layout).length) =
        d.chunks (scriptRecord layout) encoding ∧
      d.resolved.size + (link d.resolved.size layout).length + 8 ≤
        (d.image encoding layout).size := by
  have himage := h.image_toList hlayout encoding
  have hstands := Image.stands_of_toList himage
  have hhead := length_head d.resolved.size hlayout
  have hbody : headerLength +
      (Token.spell d.width d.labelOffset headerLength (tokens items)).length = d.resolved.size := by
    rw [Token.length_spell, h.size_resolved]
  rw [Image.stands_append, hhead, Image.stands_append, Nat.zero_add, hbody, Image.stands_append]
    at hstands
  have hchunks : 8 ≤ (d.chunks (scriptRecord layout) encoding).length := by
    have hid : ChunkKind.sptr.id.length = 4 := rfl
    simp only [chunks, chunk, Chunk.encode, List.length_append, Bytes.length_le32, hid]
    omega
  have hsize : (d.image encoding layout).toList.length = (d.image encoding layout).size :=
    Array.length_toList
  refine ⟨hstands.2.1, hstands.2.2.1, ?_, ?_⟩
  · rw [himage, ← List.append_assoc, ← List.append_assoc]
    refine List.drop_left' ?_
    rw [List.length_append, List.length_append, hhead, hbody]
  · rw [← hsize, himage, List.length_append, List.length_append, List.length_append, hhead]
    omega

omit hlayout in
/-- The tag in the link of a legacy image, and the offset in front of it. -/
theorem Holds.readLink (width : CodeWidth) (encoding : Text.Encoding) :
    Image.chunkedTag? (d.image encoding (.legacyChunked width)) (d.resolved.size + 8) =
        some width ∧
      Image.directoryWord (d.image encoding (.legacyChunked width)) "chunk offset"
        (d.resolved.size + 8 - 8) = .ok (d.resolved.size.toUInt32 + 16) := by
  obtain ⟨-, hlink, -, hend⟩ :=
    h.stands (show Layout.legacyChunked width ≠ .legacy by simp) encoding
  have hlength : (link d.resolved.size (.legacyChunked width)).length = 16 := rfl
  rw [hlength] at hend
  rw [link, Image.stands_append, Image.stands_append] at hlink
  obtain ⟨⟨hword, htag⟩, -⟩ := hlink
  rw [Bytes.length_le32] at htag
  have hheader : headerLength ≤ d.resolved.size := by
    rw [h.size_resolved]
    exact Token.le_reach _
  have hbounds : 12 ≤ d.resolved.size + 8 ∧
      d.resolved.size + 8 ≤ (d.image encoding (.legacyChunked width)).size := by
    unfold headerLength at hheader
    omega
  constructor
  · have hstop : d.resolved.size + 4 + [0x41, 0x43, 0x53, widthTag width].length =
        d.resolved.size + 8 := rfl
    rw [Image.chunkedTag?, if_pos hbounds,
      show d.resolved.size + 8 - 4 = d.resolved.size + 4 from rfl,
      Image.extract_of_stands htag hstop]
    cases width <;> rfl
  · rw [Nat.add_sub_cancel, Image.directoryWord, Image.word?_of_stands hword]

/-- Where the chunks of a draft start. -/
def chunkOffset (d : Draft) (layout : Layout) : Nat :=
  d.resolved.size + (link d.resolved.size layout).length

/-- The header of an image leads to the chunks. -/
theorem Holds.loadTables_eq (encoding : Text.Encoding)
    (hsize : (d.image encoding layout).size < 2 ^ 32) (reading : Text.Encoding) :
    Image.loadTables (d.image encoding layout) reading =
      Image.loadChunks (d.image encoding layout) reading layout
        (Chunk.placed (d.chunkOffset layout) (d.pieces (scriptRecord layout) encoding)) := by
  obtain ⟨-, -, hdrop, hend⟩ := h.stands hlayout encoding
  rw [chunks_eq] at hdrop
  have himage := h.image_toList hlayout encoding
  rw [chunkOffset, ← loadChunked_eq hsize (by omega) hdrop reading]
  unfold Image.loadTables
  rw [himage]
  cases layout with
  | legacy => exact absurd rfl hlayout
  | enhanced width =>
    have hheader : d.resolved.size.toUInt32.toNat = d.resolved.size :=
      UInt32.toNat_ofNat_of_lt' (show d.resolved.size < 2 ^ 32 by omega)
    simp only [head, Bytes.le32, List.cons_append, List.nil_append, Bytes.ofLe32_le32, hheader]
    cases width with
    | wide => rfl
    | compact => rfl
  | legacyChunked width =>
    have hlength : (link d.resolved.size (.legacyChunked width)).length = 16 := rfl
    rw [hlength] at hend ⊢
    have hadd : ∀ n, n ≤ 16 → (d.resolved.size.toUInt32 + n.toUInt32).toNat =
        d.resolved.size + n := by
      intro n hn
      have hsum : d.resolved.size.toUInt32 + n.toUInt32 = (d.resolved.size + n).toUInt32 :=
        (UInt32.ofNat_add _ _).symm
      rw [hsum]
      exact UInt32.toNat_ofNat_of_lt' (show d.resolved.size + n < 2 ^ 32 by omega)
    have hheader : (d.resolved.size.toUInt32 + 8).toNat = d.resolved.size + 8 := hadd 8 (by omega)
    have hoffset : (d.resolved.size.toUInt32 + 16).toNat = d.resolved.size + 16 :=
      hadd 16 (by omega)
    obtain ⟨htag, hword⟩ := h.readLink width encoding
    simp only [head, Bytes.le32, List.cons_append, List.nil_append, Bytes.ofLe32_le32, hheader]
    rw [if_neg (by decide), if_neg (by decide), if_neg (by decide), if_pos (by decide), htag]
    show (Loading.ofExcept _ >>= fun offset => _) = _
    rw [hword, ← hoffset]
    rfl

/-- Loading the image of a draft gives its program. Script numbers that are too large for their
records are read as others. -/
theorem Holds.gives_load_readScripts
    (harrays : ∀ a ∈ d.arrays, a.size.toNat ≤ Image.maxArrayLength) (encoding : Text.Encoding)
    (hsize : (d.image encoding layout).size < 2 ^ 32)
    (hscripts : ∀ s ∈ d.scripts, s.entry.toNat ≤ d.code.size)
    (hfunctions : ∀ f ∈ d.functions.toList, f.entry.toNat ≤ d.code.size)
    (reading : Text.Encoding) :
    Gives (Image.load (d.image encoding layout) reading)
      { d.program layout encoding reading with
        scripts := Image.dropRepeated
          ((d.readScripts layout).mergeSort fun s t => s.number ≤ t.number) } := by
  obtain ⟨-, -, hdrop, hend⟩ := h.stands hlayout encoding
  have hcode : d.code.size = d.resolved.size := by rw [h.spells.size, h.size_resolved]
  rw [chunks_eq] at hdrop
  have hstands : (d.image encoding layout).Stands (d.chunkOffset layout)
      (Chunk.sequence (d.pieces (scriptRecord layout) encoding)) := hdrop ▸ List.prefix_refl _
  refine gives_bind ?_ (gives_bind (gives_note _) (gives_pure _))
  rw [h.loadTables_eq hlayout encoding hsize]
  exact gives_loadChunks harrays rfl hsize hstands (fun s hs => by have := hscripts s hs; omega)
    (fun f hf _ => by have := hfunctions f hf; omega)

theorem Holds.gives_load (hload : d.Loadable layout) (encoding : Text.Encoding)
    (hsize : (d.image encoding layout).size < 2 ^ 32)
    (hscripts : ∀ s ∈ d.scripts, s.entry.toNat ≤ d.code.size)
    (hfunctions : ∀ f ∈ d.functions.toList, f.entry.toNat ≤ d.code.size)
    (reading : Text.Encoding) :
    Gives (Image.load (d.image encoding layout) reading) (d.program layout encoding reading) := by
  have hread := h.gives_load_readScripts hlayout hload.arrays encoding hsize hscripts hfunctions
    reading
  rwa [readScripts_eq hload] at hread

end Images

end LevelScript.Assembly.Draft
