import LevelScript.Bytes.LittleEndian
import LevelScript.Text.Display
import LevelScript.Text.Utf8

/-!
# Chunks

The tables of a chunked image are a sequence of chunks: four bytes that name the kind, a word
with the length, and the payload. Fewer than eight bytes may follow the last chunk.

* `Chunk.split` takes the sequence apart, or reports the first chunk that is too long.
-/

namespace LevelScript

/-- Why an image cannot be loaded. -/
inductive LoadError where
  | tooShort (length : Nat)
  | badMagic (found : List UInt8)
  | badFormatTag (tag : UInt8)
  | truncated (what : String) (offset : Nat)
  | badChunk (id : String) (offset : Nat)
  | badOffset (what : String) (offset : Nat)
  deriving DecidableEq, Repr, Inhabited

def LoadError.message : LoadError → String
  | .tooShort length => s!"module too short: {length} bytes"
  | .badMagic found =>
    "bad magic: [" ++ ", ".intercalate (found.map fun b => Text.upperHexPadded 2 b.toNat) ++ "]"
  | .badFormatTag tag => "unknown format tag 0x" ++ Text.upperHexPadded 2 tag.toNat
  | .truncated what offset => s!"truncated {what} at offset 0x{Text.upperHex offset}"
  | .badChunk id offset =>
    s!"chunk {Text.quoted id} at offset 0x{Text.upperHex offset} runs past the end of the module"
  | .badOffset what offset => s!"{what} offset 0x{Text.upperHex offset} is outside the module"

/-- Kinds of chunks that are read; others are skipped. -/
inductive ChunkKind where
  /-- Scripts. -/
  | sptr
  /-- Flags of scripts. -/
  | sflg
  /-- Variable counts of scripts. -/
  | svct
  /-- Functions. -/
  | func
  /-- Map arrays. -/
  | aray
  /-- First values of an array. -/
  | aini
  /-- First values of map variables. -/
  | mini
  /-- Texts of one language. -/
  | strl
  deriving DecidableEq, Repr, Inhabited

namespace ChunkKind

def name : ChunkKind → String
  | sptr => "SPTR"
  | sflg => "SFLG"
  | svct => "SVCT"
  | func => "FUNC"
  | aray => "ARAY"
  | aini => "AINI"
  | mini => "MINI"
  | strl => "STRL"

/-- The four bytes that name the kind. -/
def id : ChunkKind → List UInt8
  | sptr => [0x53, 0x50, 0x54, 0x52]
  | sflg => [0x53, 0x46, 0x4C, 0x47]
  | svct => [0x53, 0x56, 0x43, 0x54]
  | func => [0x46, 0x55, 0x4E, 0x43]
  | aray => [0x41, 0x52, 0x41, 0x59]
  | aini => [0x41, 0x49, 0x4E, 0x49]
  | mini => [0x4D, 0x49, 0x4E, 0x49]
  | strl => [0x53, 0x54, 0x52, 0x4C]

end ChunkKind

structure Chunk where
  id : List UInt8
  payload : List UInt8
  /-- Where the payload starts in the image. -/
  offset : Nat
  deriving DecidableEq, Repr, Inhabited

namespace Chunk

/-- The chunks in bytes that start at an offset of the image. -/
def split (offset : Nat) (bytes : List UInt8) : Except LoadError (List Chunk) :=
  match bytes with
  | a :: b :: c :: d :: l₀ :: l₁ :: l₂ :: l₃ :: rest =>
    let length := (Bytes.ofLe32 l₀ l₁ l₂ l₃).toNat
    if rest.length < length then
      .error (.badChunk (Text.Utf8.decodeLossy [a, b, c, d]) offset)
    else
      (split (offset + 8 + length) (rest.drop length)).map fun more =>
        ⟨[a, b, c, d], rest.take length, offset + 8⟩ :: more
  | _ => .ok []
termination_by bytes.length
decreasing_by
  simp only [List.length_cons, List.length_drop]
  omega

/-- A chunk as it stands in an image. -/
def encode (id payload : List UInt8) : List UInt8 :=
  id ++ Bytes.le32 payload.length.toUInt32 ++ payload

def ofKind (kind : ChunkKind) (chunks : List Chunk) : List Chunk :=
  chunks.filter (·.id == kind.id)

/-- The words of a payload; up to three bytes at the end are left out. -/
def words : List UInt8 → List UInt32
  | a :: b :: c :: d :: rest => Bytes.ofLe32 a b c d :: words rest
  | _ => []

end Chunk

end LevelScript
