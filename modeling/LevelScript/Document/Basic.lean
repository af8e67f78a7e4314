/-!
# Documents

Values in the shape of a tree, as data files and messages hold them: numbers, texts, lists, and
records with named fields. A type is `Documented` if its values can be written as documents and
read back.

A value of a type with several cases is the name of the case, or a record whose only field has
that name and holds the parts.
-/

namespace LevelScript

inductive Document where
  | null
  | bool (b : Bool)
  | int (n : Int)
  | text (s : String)
  /-- A value of another kind, as it is written. -/
  | scalar (s : String)
  | list (items : List Document)
  | record (fields : List (String × Document))
  deriving Repr, Inhabited

namespace Document

/-- A field of a record; a missing one is null. -/
def field (d : Document) (name : String) : Document :=
  match d with
  | record fields => (fields.lookup name).getD null
  | _ => null

def isNull : Document → Bool
  | null => true
  | _ => false

/-- The number, if it is one from `low` up to but not including `high`. -/
def intBetween? (low high : Int) : Document → Option Int
  | int n => if low ≤ n ∧ n < high then some n else none
  | _ => none

/-- The number, if it is one below a bound and not negative. -/
def natBelow? (bound : Nat) (d : Document) : Option Nat :=
  (d.intBetween? 0 bound).map Int.toNat

def text? : Document → Option String
  | text s => some s
  | _ => none

def list? : Document → Option (List Document)
  | list items => some items
  | _ => none

/-- A case with parts. -/
def tagged (name : String) (parts : Document) : Document := record [(name, parts)]

/-- The name of a case, and its parts if it has any. -/
def case? : Document → Option (String × Document)
  | text s => some (s, null)
  | record [field] => some field
  | _ => none

/-- One of finitely many values without parts, by its name. -/
def named? {α : Type} (name : α → String) (values : List α) (d : Document) : Option α :=
  d.case?.bind fun (s, parts) => if parts.isNull then values.find? (name · == s) else none

end Document

/-- Values that can be written as documents and read back. -/
class Documented (α : Type) where
  toDocument : α → Document
  ofDocument? : Document → Option α

export Documented (toDocument ofDocument?)

/-- Reads a field of a record. -/
def Document.get? {α : Type} [Documented α] (d : Document) (name : String) : Option α :=
  ofDocument? (d.field name)

/-! ## Plain values -/

instance : Documented Bool where
  toDocument := .bool
  ofDocument?
    | .bool b => some b
    | _ => none

instance : Documented String where
  toDocument := .text
  ofDocument? := Document.text?

instance : Documented Int32 where
  toDocument v := .int v.toInt
  ofDocument? d := (d.intBetween? (-0x80000000) 0x80000000).map Int32.ofInt

instance : Documented UInt8 where
  toDocument v := .int v.toNat
  ofDocument? d := (d.natBelow? UInt8.size).map Nat.toUInt8

instance : Documented UInt16 where
  toDocument v := .int v.toNat
  ofDocument? d := (d.natBelow? UInt16.size).map Nat.toUInt16

instance : Documented UInt32 where
  toDocument v := .int v.toNat
  ofDocument? d := (d.natBelow? UInt32.size).map Nat.toUInt32

instance : Documented UInt64 where
  toDocument v := .int v.toNat
  ofDocument? d := (d.natBelow? UInt64.size).map Nat.toUInt64

/-! ## Collections -/

instance {α : Type} [Documented α] : Documented (Option α) where
  toDocument
    | none => .null
    | some a => toDocument a
  ofDocument?
    | .null => some none
    | d => (ofDocument? d).map some

instance {α : Type} [Documented α] : Documented (List α) where
  toDocument l := .list (l.map toDocument)
  ofDocument? d := d.list?.bind fun items => items.mapM ofDocument?

instance {α : Type} [Documented α] : Documented (Array α) where
  toDocument a := toDocument a.toList
  ofDocument? d := (ofDocument? d : Option (List α)).map List.toArray

instance {α : Type} [Documented α] {n : Nat} : Documented (Vector α n) where
  toDocument v := toDocument v.toList
  ofDocument? d := (ofDocument? d : Option (Array α)).bind fun a =>
    if h : a.size = n then some ⟨a, h⟩ else none

end LevelScript
