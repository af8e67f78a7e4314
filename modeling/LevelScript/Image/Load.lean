import LevelScript.Image.Chunk
import LevelScript.Program.Basic
import LevelScript.Text.Encoding

/-!
# Loading

`Image.load` checks an image and gives its program, or the reason why it cannot be loaded. The
header names the layout. A legacy image has one directory; the other layouts have chunks, read
kind by kind, so that the order of chunks of different kinds does not matter.

What is wrong but harmless is noted in the journal, also when the image is refused later.
-/

namespace LevelScript

/-- A computation that reports to a journal and may refuse the image. -/
abbrev Loading := EStateM LoadError Journal

namespace Loading

def note (d : Diagnostic) : Loading Unit := modify (·.note d)

def ofExcept {α : Type} : Except LoadError α → Loading α
  | .ok a => pure a
  | .error e => throw e

end Loading

namespace Image

/-- The longest array a map may have. -/
def maxArrayLength : Nat := 0x100000

/-! ## Scripts -/

/-- Script numbers are signed words of sixteen bits. -/
def scriptNumber (v : UInt16) : Int32 := v.toInt16.toInt32

/-- An argument count of more than a byte is the largest byte. -/
def clampByte (v : UInt32) : UInt8 := if v ≤ 255 then v.toUInt8 else 255

/-- Script records of eight bytes. -/
def shortScripts : List UInt8 → List Script
  | n₀ :: n₁ :: tag :: argc :: e₀ :: e₁ :: e₂ :: e₃ :: rest =>
    ⟨scriptNumber (Bytes.ofLe16 n₀ n₁), tag.toUInt16, argc, Bytes.ofLe32 e₀ e₁ e₂ e₃, .none, none⟩
      :: shortScripts rest
  | _ => []

/-- Script records of twelve bytes. -/
def longScripts : List UInt8 → List Script
  | n₀ :: n₁ :: t₀ :: t₁ :: e₀ :: e₁ :: e₂ :: e₃ :: c₀ :: c₁ :: c₂ :: c₃ :: rest =>
    ⟨scriptNumber (Bytes.ofLe16 n₀ n₁), Bytes.ofLe16 t₀ t₁, clampByte (Bytes.ofLe32 c₀ c₁ c₂ c₃),
      Bytes.ofLe32 e₀ e₁ e₂ e₃, .none, none⟩ :: longScripts rest
  | _ => []

/-- Pairs of a script number and a value. -/
def scriptPairs : List UInt8 → List (Int32 × UInt16)
  | n₀ :: n₁ :: v₀ :: v₁ :: rest =>
    (scriptNumber (Bytes.ofLe16 n₀ n₁), Bytes.ofLe16 v₀ v₁) :: scriptPairs rest
  | _ => []

/-- Changes the first script with the number. -/
def modifyScript (number : Int32) (f : Script → Script) : List Script → List Script
  | [] => []
  | s :: rest => if s.number == number then f s :: rest else s :: modifyScript number f rest

/-- Gives a value to a script; a number that no script has is noted. -/
def applyPair (kind : ChunkKind) (set : UInt16 → Script → Script) (scripts : List Script)
    (pair : Int32 × UInt16) : Loading (List Script) :=
  if scripts.any (·.number == pair.1) then
    pure (modifyScript pair.1 (set pair.2) scripts)
  else do
    Loading.note (.unknownScriptEntry kind.name pair.1)
    pure scripts

/-- The first of each run of scripts with one number. -/
def dropRepeated : List Script → List Script
  | s :: t :: rest =>
    if s.number == t.number then dropRepeated (s :: rest) else s :: dropRepeated (t :: rest)
  | scripts => scripts
termination_by scripts => scripts.length

/-- Checks entries, then orders scripts by number and keeps the first of each number. -/
def finishScripts (size : Nat) (scripts : List Script) : Loading (List Script) := do
  match scripts.find? fun s => size ≤ s.entry.toNat with
  | some s => throw (.badOffset "script entry" s.entry.toNat)
  | none => pure ()
  let kept := dropRepeated (scripts.mergeSort fun s t => s.number ≤ t.number)
  if kept.length != scripts.length then
    Loading.note (.duplicateScripts (scripts.length - kept.length))
  pure kept

/-! ## Functions, arrays and variables -/

def functionRecords : List UInt8 → List Function
  | argc :: locals :: hasReturn :: tag :: e₀ :: e₁ :: e₂ :: e₃ :: rest =>
    ⟨argc, locals, hasReturn != 0, tag, Bytes.ofLe32 e₀ e₁ e₂ e₃⟩ :: functionRecords rest
  | _ => []

/-- Pairs of consecutive words. -/
def wordPairs : List UInt32 → List (UInt32 × UInt32)
  | v :: w :: rest => (v, w) :: wordPairs rest
  | _ => []

/-- Declares an array, whose number is put into a map variable. -/
def declareArray (chunk : Chunk) (m : MapMemory) (record : UInt32 × UInt32) :
    Loading MapMemory := do
  let (slot, size) := record
  if maxArrayLength < size.toNat then
    throw (.badChunk ChunkKind.aray.name chunk.offset)
  let number := m.arrays.size
  unless slot.toNat < mapVarCount do
    Loading.note (.arrayOutsideScope number slot)
  let m := m.setVar slot.toNat (Int32.ofNat number)
  pure { m with arrays := m.arrays.push (Array.replicate size.toNat 0) }

/-- Writes values one after another from a place on; what lies outside is left out. -/
def writeFrom (start : Nat) (values : List UInt32) (a : Array Int32) : Array Int32 :=
  (values.foldl (fun (a, i) v => (a.setIfInBounds i v.toInt32, i + 1)) (a, start)).1

/-- First values of an array. -/
def initArray (m : MapMemory) (chunk : Chunk) : Loading MapMemory :=
  match Chunk.words chunk.payload with
  | [] => throw (.truncated ChunkKind.aini.name 0)
  | array :: values =>
    if array.toNat < m.arrays.size then
      pure { m with arrays := m.arrays.modify array.toNat (writeFrom 0 values) }
    else do
      Loading.note (.undeclaredArray array)
      pure m

/-- First values of map variables. -/
def initVars (m : MapMemory) (chunk : Chunk) : Loading MapMemory :=
  match Chunk.words chunk.payload with
  | [] => throw (.truncated ChunkKind.mini.name 0)
  | first :: values =>
    pure (values.foldl (fun (m, i) v => (m.setVar i v.toInt32, i + 1)) (m, first.toNat)).1

/-! ## Texts -/

/-- The table of the texts at offsets from a base. -/
def readTexts (image : Image) (encoding : Text.Encoding) (base : Nat) (language : Language)
    (offsets : List UInt32) : Except LoadError StringTable := do
  let texts ← offsets.mapM fun offset =>
    let start := base + offset.toNat
    if start < image.size then .ok (encoding.decode (image.literalAt start))
    else .error (.badOffset "string" start)
  return ⟨language, texts.toArray⟩

/-- The table of a chunk: language, count, an unused word, and offsets from the payload. -/
def readTable (image : Image) (encoding : Text.Encoding) (chunk : Chunk) :
    Except LoadError StringTable :=
  match Chunk.words chunk.payload with
  | language :: count :: _ :: offsets =>
    if offsets.length < count.toNat then .error (.truncated "STRL offsets" (chunk.offset + 12))
    else readTexts image encoding chunk.offset ⟨language⟩ (offsets.take count.toNat)
  | short => .error (.truncated ChunkKind.strl.name (short.length * 4))

def insertTable (strings : Strings) (t : StringTable) : Loading Strings := do
  modify (·.noteAll (strings.insertReport t))
  pure (strings.insert t)

/-! ## Chunked images -/

/-- Reads the tables of a chunked image. -/
def loadChunks (image : Image) (encoding : Text.Encoding) (layout : Layout)
    (chunks : List Chunk) : Loading Program := do
  let payloads (kind : ChunkKind) := (Chunk.ofKind kind chunks).map (·.payload)
  let records := if layout matches .legacyChunked _ then shortScripts else longScripts
  let scripts := (payloads .sptr).flatMap records
  let scripts ← ((payloads .sflg).flatMap scriptPairs).foldlM
    (applyPair .sflg fun v s => { s with flags := ScriptFlags.truncate v }) scripts
  let scripts ← ((payloads .svct).flatMap scriptPairs).foldlM
    (applyPair .svct fun v s => { s with localCount := some v }) scripts
  let functions := (payloads .func).flatMap functionRecords
  let memory ← (Chunk.ofKind .aray chunks).foldlM
    (fun m chunk => (wordPairs (Chunk.words chunk.payload)).foldlM (declareArray chunk) m)
    MapMemory.empty
  let memory ← (Chunk.ofKind .aini chunks).foldlM initArray memory
  let memory ← (Chunk.ofKind .mini chunks).foldlM initVars memory
  let strings ← (Chunk.ofKind .strl chunks).foldlM
    (fun strings chunk => do
      insertTable strings (← Loading.ofExcept (readTable image encoding chunk)))
    Strings.empty
  let scripts ← finishScripts image.size scripts
  match functions.find? fun f => !f.isImported && image.size ≤ f.entry.toNat with
  | some f => throw (.badOffset "function entry" f.entry.toNat)
  | none => pure ⟨image, layout, scripts, functions.toArray, strings, memory⟩

/-- Finds the chunks at an offset and reads them. -/
def loadChunked (image : Image) (encoding : Text.Encoding) (layout : Layout) (offset : Nat) :
    Loading Program := do
  if image.size < offset then
    throw (.badOffset "chunk section" offset)
  let chunks ← Loading.ofExcept (Chunk.split offset (image.toList.drop offset))
  loadChunks image encoding layout chunks

/-! ## Legacy images -/

def directoryWord (image : Image) (what : String) (offset : Nat) : Except LoadError UInt32 :=
  match image.word? offset with
  | some w => .ok w
  | none => .error (.truncated what offset)

/-- Scripts of a directory: kind and number in one word, argument count and entry. -/
def directoryScripts (image : Image) : Nat → Nat → Except LoadError (List Script)
  | 0, _ => .ok []
  | count + 1, offset => do
    let packed ← directoryWord image "script record" offset
    let argc ← directoryWord image "script record" (offset + 4)
    let entry ← directoryWord image "script record" (offset + 8)
    let script : Script :=
      ⟨(packed % 1000).toInt32, (packed / 1000).toUInt16, clampByte argc, entry, .none, none⟩
    return script :: (← directoryScripts image count (offset + 12))

def directoryOffsets (image : Image) : Nat → Nat → Except LoadError (List UInt32)
  | 0, _ => .ok []
  | count + 1, offset => do
    let text ← directoryWord image "string offset" offset
    return text :: (← directoryOffsets image count (offset + 4))

/-- Reads the directory at an offset. -/
def loadLegacy (image : Image) (encoding : Text.Encoding) (offset : Nat) : Loading Program := do
  if image.size ≤ offset then
    throw (.badOffset "script directory" offset)
  let count ← Loading.ofExcept (directoryWord image "script count" offset)
  let scripts ← Loading.ofExcept (directoryScripts image count.toNat (offset + 4))
  let after := offset + 4 + count.toNat * 12
  let textCount ← Loading.ofExcept (directoryWord image "string count" after)
  let offsets ← Loading.ofExcept (directoryOffsets image textCount.toNat (after + 4))
  let table ← Loading.ofExcept (readTexts image encoding 0 .neutral offsets)
  let scripts ← finishScripts image.size scripts
  pure ⟨image, .legacy, scripts, #[], Strings.empty.insert table, MapMemory.empty⟩

/-! ## The header -/

/-- `ACSE` or `ACSe`, by which chunked images are known. -/
def widthTag? : List UInt8 → Option CodeWidth
  | [0x41, 0x43, 0x53, 0x45] => some .wide
  | [0x41, 0x43, 0x53, 0x65] => some .compact
  | _ => none

/-- The tag in front of a directory that has chunks too. -/
def chunkedTag? (image : Image) (directory : Nat) : Option CodeWidth :=
  if 12 ≤ directory ∧ directory ≤ image.size then
    widthTag? (image.extract (directory - 4) directory).toList
  else none

/-- Reads the header and what it leads to. -/
def loadTables (image : Image) (encoding : Text.Encoding) : Loading Program :=
  match image.toList with
  | m₀ :: m₁ :: m₂ :: tag :: w₀ :: w₁ :: w₂ :: w₃ :: _ =>
    let header := (Bytes.ofLe32 w₀ w₁ w₂ w₃).toNat
    if [m₀, m₁, m₂] != [0x41, 0x43, 0x53] then throw (.badMagic [m₀, m₁, m₂])
    else if tag == 0x45 then loadChunked image encoding (.enhanced .wide) header
    else if tag == 0x65 then loadChunked image encoding (.enhanced .compact) header
    else if tag == 0 then
      match chunkedTag? image header with
      | some width => do
        let offset ← Loading.ofExcept (directoryWord image "chunk offset" (header - 8))
        loadChunked image encoding (.legacyChunked width) offset.toNat
      | none => loadLegacy image encoding header
    else throw (.badFormatTag tag)
  | _ => throw (.tooShort image.size)

/-- The program of an image. -/
def load (image : Image) (encoding : Text.Encoding) : Loading Program := do
  let p ← loadTables image encoding
  Loading.note (.loaded p.layout image.size p.scripts.length p.functions.size p.memory.arrays.size
    p.strings.languages)
  pure p

end Image

end LevelScript
