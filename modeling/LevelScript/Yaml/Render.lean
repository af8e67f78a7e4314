import LevelScript.Document.Basic
import LevelScript.Yaml.Scalar

/-!
# YAML files

A document as a YAML file, with one line for each scalar. The items of a list stand at the
column of the name they belong to; the fields of a record stand two columns further in.
-/

namespace LevelScript.Yaml

/-- Whether a document takes lines of its own. -/
def isBlock : Document → Bool
  | .list (_ :: _) | .record (_ :: _) => true
  | _ => false

/-- The column of a field's value: items stay at the column of the name. -/
def valueColumn (column : Nat) : Document → Nat
  | .list (_ :: _) => column
  | _ => column + 2

/-- What stands between the name of a field and its value. -/
def fieldGap (column : Nat) (d : Document) : String :=
  if isBlock d then ":\n" ++ spaces (valueColumn column d) else ": "

/-- Parts on lines of their own, the first of which goes on where the line is. -/
def stacked (column : Nat) (parts : List String) : String := (spaces column).intercalate parts

mutual

/-- A node whose lines after the first stand at a column, with the end of its last line. -/
def node (column : Nat) : Document → String
  | .null => line "null"
  | .bool b => line (if b then "true" else "false")
  | .int n => line (toString n)
  | .text s => scalar column s
  | .scalar s => line s
  | .list items => if items.isEmpty then line "[]" else stacked column (itemTexts column items)
  | .record fields =>
    if fields.isEmpty then line "\x7b\x7d" else stacked column (fieldTexts column fields)

def itemTexts (column : Nat) : List Document → List String
  | [] => []
  | d :: rest => ("- " ++ node (column + 2) d) :: itemTexts column rest

def fieldTexts (column : Nat) : List (String × Document) → List String
  | [] => []
  | f :: rest => fieldText column f :: fieldTexts column rest

def fieldText (column : Nat) : String × Document → String
  | (name, d) => name ++ fieldGap column d ++ node (valueColumn column d) d

end

def render (d : Document) : String := node 0 d

end LevelScript.Yaml
