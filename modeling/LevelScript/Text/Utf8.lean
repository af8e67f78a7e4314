/-!
# UTF-8

Bytes are read as a list of items: a character, a broken part (the longest start of a
character that its next byte cannot continue), or a part cut off by the end of the input.

* `decodeLossy` writes one replacement character for each part that is no character.
* `decode?` accepts only whole characters, and reports the first other part and where it is.
-/

namespace LevelScript.Text.Utf8

/-- What a piece of the input is. -/
inductive Item where
  | char (c : Char)
  | broken (width : Nat)
  | cut (width : Nat)
  deriving DecidableEq, Repr

/-- A character begun: its bits so far, how many bytes were read and are missing, and the
range of the next byte. -/
structure Partial where
  bits : Nat
  used : Nat
  missing : Nat
  low : UInt8
  high : UInt8
  deriving DecidableEq, Repr

/-- What a first byte begins: a whole character, part of one, or nothing. -/
inductive Lead where
  | whole
  | begun (p : Partial)
  | stray

def lead (b : UInt8) : Lead :=
  if b < 0x80 then .whole
  else if b < 0xC2 then .stray
  else if b < 0xE0 then .begun ⟨b.toNat - 0xC0, 1, 1, 0x80, 0xBF⟩
  else if b == 0xE0 then .begun ⟨0, 1, 2, 0xA0, 0xBF⟩
  else if b == 0xED then .begun ⟨0xD, 1, 2, 0x80, 0x9F⟩
  else if b < 0xF0 then .begun ⟨b.toNat - 0xE0, 1, 2, 0x80, 0xBF⟩
  else if b == 0xF0 then .begun ⟨0, 1, 3, 0x90, 0xBF⟩
  else if b < 0xF4 then .begun ⟨b.toNat - 0xF0, 1, 3, 0x80, 0xBF⟩
  else if b == 0xF4 then .begun ⟨4, 1, 3, 0x80, 0x8F⟩
  else .stray

/-- Reads on from a character begun, or from none. -/
def itemsFrom : Option Partial → List UInt8 → List Item
  | none, [] => []
  | some p, [] => [.cut p.used]
  | none, b :: rest =>
    match lead b with
    | .whole => .char (Char.ofNat b.toNat) :: itemsFrom none rest
    | .begun p => itemsFrom (some p) rest
    | .stray => .broken 1 :: itemsFrom none rest
  | some p, b :: rest =>
    if p.low ≤ b ∧ b ≤ p.high then
      let bits := p.bits * 64 + (b.toNat - 0x80)
      if p.missing = 1 then .char (Char.ofNat bits) :: itemsFrom none rest
      else itemsFrom (some ⟨bits, p.used + 1, p.missing - 1, 0x80, 0xBF⟩) rest
    else
      .broken p.used ::
        match lead b with
        | .whole => .char (Char.ofNat b.toNat) :: itemsFrom none rest
        | .begun q => itemsFrom (some q) rest
        | .stray => .broken 1 :: itemsFrom none rest

def items (bytes : List UInt8) : List Item := itemsFrom none bytes

/-- The character that stands for a part that is none. -/
def replacement : Char := '\uFFFD'

def Item.toChar : Item → Char
  | .char c => c
  | .broken _ | .cut _ => replacement

def Item.width : Item → Nat
  | .char c => c.utf8Size
  | .broken n | .cut n => n

def decodeLossy (bytes : List UInt8) : String :=
  String.ofList ((items bytes).map Item.toChar)

/-- Why bytes are no text, and at which offset. -/
inductive Error where
  | broken (width offset : Nat)
  | cut (offset : Nat)
  deriving DecidableEq, Repr

def Error.message : Error → String
  | .broken width offset => s!"invalid utf-8 sequence of {width} bytes from index {offset}"
  | .cut offset => s!"incomplete utf-8 byte sequence from index {offset}"

/-- The first item that is no character, `offset` being where the items start. -/
def firstError (offset : Nat) : List Item → Option Error
  | [] => none
  | .char c :: rest => firstError (offset + c.utf8Size) rest
  | .broken n :: _ => some (.broken n offset)
  | .cut _ :: _ => some (.cut offset)

def decode? (bytes : List UInt8) : Except Error String :=
  let read := items bytes
  match firstError 0 read with
  | some e => .error e
  | none => .ok (String.ofList (read.map Item.toChar))

def encode (text : String) : List UInt8 :=
  text.toList.flatMap String.utf8EncodeChar

end LevelScript.Text.Utf8
