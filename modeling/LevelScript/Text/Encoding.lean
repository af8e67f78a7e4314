import LevelScript.Text.Display
import LevelScript.Text.Utf8

/-!
# Text encodings of string literals

Literals in an image are bytes that end at a zero byte. Which characters they stand for depends
on the compiler that wrote them, so the encoding is a setting.
-/

namespace LevelScript.Text

/-! ## Windows-1252

One byte for each character. Bytes below 0x80 and from 0xA0 on stand for the code point of the
same number; the 32 between them are listed in `middle`. Characters outside the table are
written as a decimal character reference. -/

namespace Windows1252

/-- Code points of the bytes 0x80 to 0x9F. -/
def middle : List Nat := [
  0x20AC, 0x0081, 0x201A, 0x0192, 0x201E, 0x2026, 0x2020, 0x2021,
  0x02C6, 0x2030, 0x0160, 0x2039, 0x0152, 0x008D, 0x017D, 0x008F,
  0x0090, 0x2018, 0x2019, 0x201C, 0x201D, 0x2022, 0x2013, 0x2014,
  0x02DC, 0x2122, 0x0161, 0x203A, 0x0153, 0x009D, 0x017E, 0x0178]

def decodeByte (b : UInt8) : Char :=
  if 0x80 ≤ b ∧ b < 0xA0 then Char.ofNat (middle.getD (b.toNat - 0x80) 0)
  else Char.ofNat b.toNat

def decode (bytes : List UInt8) : String :=
  String.ofList (bytes.map decodeByte)

/-- The byte of a character, if the table has it. -/
def byte? (c : Char) : Option UInt8 :=
  let n := c.toNat
  if n < 0x80 ∨ (0xA0 ≤ n ∧ n < 0x100) then some n.toUInt8
  else (middle.idxOf? n).map fun i => (0x80 + i).toUInt8

/-- A reference to a character by its number, in ASCII. -/
def reference (c : Char) : List UInt8 :=
  s!"&#{c.toNat};".toList.map fun d => d.toNat.toUInt8

def encodeChar (c : Char) : List UInt8 :=
  match byte? c with
  | some b => [b]
  | none => reference c

def encode (text : String) : List UInt8 :=
  text.toList.flatMap encodeChar

end Windows1252

/-! ## Encodings -/

inductive Encoding where
  | utf8
  | windows1252
  deriving DecidableEq, Repr, Inhabited

namespace Encoding

/-- A literal's encoding when nothing else is said. -/
def standard : Encoding := .windows1252

/-- The name in a settings file. -/
def name : Encoding → String
  | .utf8 => "utf8"
  | .windows1252 => "windows1252"

/-- A spelling that names no encoding. -/
structure ParseError where
  spelling : String
  deriving DecidableEq, Repr

def ParseError.message (e : ParseError) : String :=
  "unknown encoding " ++ quoted e.spelling ++ " (expected utf8 or cp1252)"

/-- Reads one of the accepted spellings; capital and small letters are alike. -/
def parse (s : String) : Except ParseError Encoding :=
  let small := s.toLower
  if small == "utf8" || small == "utf-8" then .ok .utf8
  else if small == "cp1252" || small == "windows-1252" || small == "latin1" then .ok .windows1252
  else .error ⟨s⟩

def decode : Encoding → List UInt8 → String
  | .utf8, bytes => Utf8.decodeLossy bytes
  | .windows1252, bytes => Windows1252.decode bytes

/-- The text before the first zero byte. -/
def decodeLiteral (e : Encoding) (bytes : List UInt8) : String :=
  e.decode (bytes.takeWhile (· != 0))

def encode : Encoding → String → List UInt8
  | .utf8, text => Utf8.encode text
  | .windows1252, text => Windows1252.encode text

/-- The bytes of a literal, with the zero byte that ends it. -/
def encodeLiteral (e : Encoding) (text : String) : List UInt8 :=
  e.encode text ++ [0]

end Encoding

end LevelScript.Text
