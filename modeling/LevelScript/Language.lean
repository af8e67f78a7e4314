import LevelScript.Bytes.LittleEndian
import LevelScript.Text.Display
import LevelScript.Text.Utf8

/-!
# Languages of string tables

A language is a code of at most four bytes, kept as the word that stands in a string table's
header. The zero word is the neutral language. A text that is missing in one language is
looked up in the next one of the fallback chain.
-/

namespace LevelScript

structure Language where
  word : UInt32
  deriving DecidableEq, Repr, Inhabited

namespace Language

def neutral : Language := ⟨0⟩

def english : Language := ⟨Bytes.ofLe32 0x65 0x6E 0 0⟩

def isNeutral (l : Language) : Bool := l == neutral

inductive ParseError where
  | tooLong (code : String)
  | notAscii (code : String)
  deriving DecidableEq, Repr

def ParseError.message : ParseError → String
  | .tooLong code => "language code " ++ Text.quoted code ++ " is longer than four bytes"
  | .notAscii code => "language code " ++ Text.quoted code ++ " is not ASCII"

/-- The word of at most four bytes, zeros after them. -/
def ofBytes (bytes : List UInt8) : Language :=
  let byte (i : Nat) : UInt8 := bytes.getD i 0
  ⟨Bytes.ofLe32 (byte 0) (byte 1) (byte 2) (byte 3)⟩

/-- Reads a code; capital letters become small ones. -/
def parse (code : String) : Except ParseError Language :=
  let chars := code.toList
  if chars.any (fun c => 0x80 ≤ c.toNat) then .error (.notAscii code)
  else if 4 < chars.length then .error (.tooLong code)
  else .ok (ofBytes (chars.map fun c => c.toLower.toNat.toUInt8))

/-- The code as text, up to its first zero byte; empty when the bytes are no text. -/
def code (l : Language) : String :=
  match Text.Utf8.decode? ((Bytes.le32 l.word).takeWhile (· != 0)) with
  | .ok s => s
  | .error _ => ""

/-- The name shown to people. -/
def displayName (l : Language) : String :=
  if l.isNeutral then "neutral" else l.code

/-- The name shown in a list of tables. -/
def listedName (l : Language) : String :=
  "LanguageId(" ++ l.displayName ++ ")"

/-- Languages in which a text is looked up: the requested one, English and the neutral one,
each once. -/
def fallbackChain (requested : Language) : List Language :=
  let english := if requested == english then [] else [english]
  let neutral := if requested == neutral then [] else [neutral]
  requested :: (english ++ neutral)

end Language

end LevelScript
