import LevelScript.Bytes.LittleEndian
import LevelScript.Text.Utf8

/-!
# Codecs

A codec writes a value as bytes and reads it back from the start of some bytes, giving what
follows. Words are little-endian; a list is its length in 64 bits and its elements; an optional
value is a byte 0, or a byte 1 and the value; a case of a type is a word and the parts of the
case.
-/

namespace LevelScript

/-- Why bytes cannot be read as a value. -/
inductive DecodeError where
  | endOfInput
  /-- A text is longer than what is left. -/
  | textBeyondEnd
  /-- A case that a type with so many cases does not have. -/
  | badCase (found : UInt32) (count : Nat)
  | badOption (found : UInt8)
  | badBool (found : UInt8)
  | badText (error : Text.Utf8.Error)
  deriving DecidableEq, Repr

def DecodeError.message : DecodeError → String
  | .endOfInput => "io error: unexpected end of file"
  | .textBeyondEnd => "io error: "
  | .badCase found count =>
    s!"invalid value: integer `{found}`, expected variant index 0 <= i < {count}"
  | .badOption found => s!"tag for enum is not valid, found {found}"
  | .badBool found => s!"invalid u8 while decoding bool, expected 0 or 1, found {found}"
  | .badText error => s!"string is not valid utf8: {error.message}"

/-- Reads a value from the start of some bytes. -/
abbrev Decoder (α : Type) := List UInt8 → Except DecodeError (α × List UInt8)

structure Codec (α : Type) where
  encode : α → List UInt8
  decode : Decoder α

namespace Codec

variable {α β : Type}

/-! ## Words -/

def byte : Codec UInt8 where
  encode b := [b]
  decode
    | b :: rest => .ok (b, rest)
    | [] => .error .endOfInput

def word : Codec UInt32 where
  encode := Bytes.le32
  decode
    | b₀ :: b₁ :: b₂ :: b₃ :: rest => .ok (Bytes.ofLe32 b₀ b₁ b₂ b₃, rest)
    | _ => .error .endOfInput

def long : Codec UInt64 where
  encode := Bytes.le64
  decode
    | b₀ :: b₁ :: b₂ :: b₃ :: b₄ :: b₅ :: b₆ :: b₇ :: rest =>
      .ok (Bytes.ofLe64 b₀ b₁ b₂ b₃ b₄ b₅ b₆ b₇, rest)
    | _ => .error .endOfInput

/-! ## Combining codecs -/

/-- Reads through a function that may refuse. -/
def refine (c : Codec α) (write : β → α) (read : α → Except DecodeError β) : Codec β where
  encode b := c.encode (write b)
  decode s :=
    match c.decode s with
    | .error e => .error e
    | .ok (a, rest) => (read a).map (·, rest)

/-- Uses a codec for a type whose values correspond to its own. -/
def convert (c : Codec α) (write : β → α) (read : α → β) : Codec β where
  encode b := c.encode (write b)
  decode s :=
    match c.decode s with
    | .error e => .error e
    | .ok (a, rest) => .ok (read a, rest)

/-- One value after the other. -/
def pair (c : Codec α) (d : Codec β) : Codec (α × β) where
  encode p := c.encode p.1 ++ d.encode p.2
  decode s :=
    match c.decode s with
    | .error e => .error e
    | .ok (a, s) =>
      match d.decode s with
      | .error e => .error e
      | .ok (b, s) => .ok ((a, b), s)

def int : Codec Int32 := word.convert Int32.toUInt32 UInt32.toInt32

def bool : Codec Bool :=
  byte.refine (fun b => if b then 1 else 0) fun
    | 0 => .ok false
    | 1 => .ok true
    | b => .error (.badBool b)

def option (c : Codec α) : Codec (Option α) where
  encode
    | none => [0]
    | some a => 1 :: c.encode a
  decode
    | [] => .error .endOfInput
    | 0 :: rest => .ok (none, rest)
    | 1 :: rest =>
      match c.decode rest with
      | .error e => .error e
      | .ok (a, rest) => .ok (some a, rest)
    | b :: _ => .error (.badOption b)

/-! ## Lists -/

/-- Reads so many values, after those already read, which stand in reverse. -/
def decodeMany (c : Codec α) : Nat → List α → Decoder (List α)
  | 0, read, s => .ok (read.reverse, s)
  | n + 1, read, s =>
    match c.decode s with
    | .error e => .error e
    | .ok (a, s) => decodeMany c n (a :: read) s

def list (c : Codec α) : Codec (List α) where
  encode l := long.encode l.length.toUInt64 ++ l.flatMap c.encode
  decode s :=
    match long.decode s with
    | .error e => .error e
    | .ok (n, s) => decodeMany c n.toNat [] s

def array (c : Codec α) : Codec (Array α) := c.list.convert Array.toList List.toArray

/-- Takes bytes, after those already taken, which stand in reverse. -/
def takeBytes : Nat → List UInt8 → List UInt8 → Option (List UInt8 × List UInt8)
  | 0, taken, s => some (taken.reverse, s)
  | _ + 1, _, [] => none
  | n + 1, taken, b :: s => takeBytes n (b :: taken) s

/-- A fixed number of bytes. -/
def block (n : Nat) : Codec (Vector UInt8 n) where
  encode v := v.toList
  decode s :=
    match takeBytes n [] s with
    | none => .error .endOfInput
    | some (l, rest) =>
      if h : l.toArray.size = n then .ok (⟨l.toArray, h⟩, rest) else .error .endOfInput

def text : Codec String where
  encode t :=
    let bytes := Text.Utf8.encode t
    long.encode bytes.length.toUInt64 ++ bytes
  decode s :=
    match long.decode s with
    | .error e => .error e
    | .ok (n, s) =>
      match takeBytes n.toNat [] s with
      | none => .error .textBeyondEnd
      | some (bytes, rest) =>
        match Text.Utf8.decode? bytes with
        | .error e => .error (.badText e)
        | .ok t => .ok (t, rest)

/-! ## Cases -/

/-- A type with finitely many values, each a word by its place in a list. -/
def enumeration [DecidableEq α] (values : List α) : Codec α :=
  word.refine (fun a => (values.idxOf a).toUInt32) fun n =>
    match values[n.toNat]? with
    | some a => .ok a
    | none => .error (.badCase n values.length)

/-- The word of a case. -/
def caseOf (n : Nat) : List UInt8 := word.encode n.toUInt32

/-- Reads the word of a case and then the case. -/
def cases (count : Nat) (decodeCase : Nat → Option (Decoder α)) : Decoder α := fun s =>
  match word.decode s with
  | .error e => .error e
  | .ok (n, s) =>
    match decodeCase n.toNat with
    | some d => d s
    | none => .error (.badCase n count)

/-- A case that has no parts. -/
def plain (a : α) : Decoder α := fun s => .ok (a, s)

/-- A case made of one part. -/
def part (c : Codec β) (make : β → α) : Decoder α := fun s =>
  match c.decode s with
  | .error e => .error e
  | .ok (b, s) => .ok (make b, s)

end Codec

end LevelScript
