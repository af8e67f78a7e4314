import LevelScript.Document.Basic

/-!
# TOML tables

A table under construction. What may still be added to it depends on how it came about: a table
with a header of its own is complete after its lines, one that only occurs on the way to others
may still get a header, and one made by a dotted name takes further dotted names only.
-/

namespace LevelScript.Toml

/-- How a table came about. -/
inductive Origin where
  /-- By a header of its own. -/
  | header
  /-- On the way to the table of a header. -/
  | passed
  /-- By a dotted name. -/
  | dotted
  deriving DecidableEq, Repr, Inhabited

inductive Node where
  | value (d : Document)
  | table (origin : Origin) (entries : List (String × Node))
  /-- Tables under one header, the last one first. -/
  | tables (elements : List (List (String × Node)))
  deriving Inhabited

/-- The entries of a table, in order. -/
abbrev Entries := List (String × Node)

namespace Entries

/-- Puts a node in the place of the one with its name, or at the end. -/
def put (entries : Entries) (name : String) (node : Node) : Entries :=
  if (entries.lookup name).isSome then
    entries.map fun e => if e.1 == name then (name, node) else e
  else entries ++ [(name, node)]

/-- Changes the table at a path; tables that are missing on the way are made. A dotted name does
not go through a table that has a header. -/
def change (dotted : Bool) (f : Origin → Entries → Option Entries) :
    List String → Origin → Entries → Option Entries
  | [], origin, entries => f origin entries
  | name :: path, _, entries =>
    match entries.lookup name with
    | none =>
      let origin := if dotted then Origin.dotted else .passed
      (change dotted f path origin []).map fun inner => entries.put name (.table origin inner)
    | some (.table origin inner) =>
      if dotted ∧ origin = .header then none
      else (change dotted f path origin inner).map fun inner =>
        entries.put name (.table origin inner)
    | some (.tables (last :: others)) =>
      (change dotted f path .header last).map fun last =>
        entries.put name (.tables (last :: others))
    | _ => none

/-- Adds a value that is new to its table. -/
def addNew (name : String) (d : Document) (entries : Entries) : Option Entries :=
  if (entries.lookup name).isSome then none else some (entries ++ [(name, .value d)])

/-- Adds a value under a name with dots, whose parts are given. -/
def assign (path : List String) (name : String) (d : Document) (entries : Entries) :
    Option Entries :=
  let add (origin : Origin) (inner : Entries) : Option Entries :=
    if path.isEmpty ∨ origin = .dotted then addNew name d inner else none
  change true add path .header entries

/-- Opens the table of a header. -/
def openTable (path : List String) (name : String) (entries : Entries) : Option Entries :=
  let add (_ : Origin) (inner : Entries) : Option Entries :=
    match inner.lookup name with
    | none => some (inner.put name (.table .header []))
    | some (.table .passed rows) => some (inner.put name (.table .header rows))
    | _ => none
  change false add path .header entries

/-- Opens one more table of a header with double brackets. -/
def openElement (path : List String) (name : String) (entries : Entries) : Option Entries :=
  let add (_ : Origin) (inner : Entries) : Option Entries :=
    match inner.lookup name with
    | none => some (inner.put name (.tables [[]]))
    | some (.tables elements) => some (inner.put name (.tables ([] :: elements)))
    | _ => none
  change false add path .header entries

end Entries

mutual

def Node.toDocument : Node → Document
  | .value d => d
  | .table _ entries => .record (entryDocuments entries)
  | .tables elements => .list (elementDocuments elements).reverse

def entryDocuments : List (String × Node) → List (String × Document)
  | [] => []
  | e :: rest => entryDocument e :: entryDocuments rest

def entryDocument : String × Node → String × Document
  | (name, node) => (name, node.toDocument)

def elementDocuments : List (List (String × Node)) → List Document
  | [] => []
  | e :: rest => .record (entryDocuments e) :: elementDocuments rest

end

end LevelScript.Toml
