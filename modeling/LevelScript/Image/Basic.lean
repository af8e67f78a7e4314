import LevelScript.Bytes.LittleEndian
import LevelScript.Bytes.Sha256

/-!
# Images

A compiled module is one block of bytes. Its layout says where the tables of scripts, functions
and strings are; its code is encoded wide (every number a word) or compact (most numbers a byte).
All positions in code are offsets into the image.
-/

namespace LevelScript

/-- The bytes of a compiled module. -/
abbrev Image := Array UInt8

/-- How opcodes and indices are written in code. -/
inductive CodeWidth where
  | wide
  | compact
  deriving DecidableEq, Repr, Inhabited

def CodeWidth.title : CodeWidth → String
  | .wide => "Wide"
  | .compact => "Compact"

/-- How an image is laid out. -/
inductive Layout where
  /-- A directory of scripts and strings only. -/
  | legacy
  /-- An empty directory for old readers, and chunks. -/
  | legacyChunked (width : CodeWidth)
  /-- A header and chunks. -/
  | enhanced (width : CodeWidth)
  deriving DecidableEq, Repr, Inhabited

namespace Layout

def codeWidth : Layout → CodeWidth
  | .legacy => .wide
  | .legacyChunked width | .enhanced width => width

def title : Layout → String
  | .legacy => "Legacy"
  | .legacyChunked width => "LegacyChunked(" ++ width.title ++ ")"
  | .enhanced width => "Enhanced(" ++ width.title ++ ")"

end Layout

/-- What identifies an image: its length and its digest. -/
structure Fingerprint where
  length : UInt32
  digest : Vector UInt8 32
  deriving DecidableEq, Repr, Inhabited

namespace Image

def fingerprint (image : Image) : Fingerprint :=
  ⟨image.size.toUInt32, ⟨(Bytes.Sha256.digest image).toArray, Bytes.Sha256.length_digest image⟩⟩

/-- The word at an offset, if the image holds all four bytes of it. -/
def word? (image : Image) (offset : Nat) : Option UInt32 :=
  if h : offset + 4 ≤ image.size then
    some (Bytes.ofLe32 image[offset] image[offset + 1] image[offset + 2] image[offset + 3])
  else none

/-- The bytes from an offset up to the next zero byte or the end. -/
def literalAt (image : Image) (offset : Nat) : List UInt8 :=
  if h : offset < image.size then
    if image[offset] = 0 then [] else image[offset] :: literalAt image (offset + 1)
  else []
termination_by image.size - offset

end Image

end LevelScript
