import LevelScript.Journal

/-!
# String tables

A program has one table of texts for each language. A text is looked up by its index in the
tables of the fallback chain; the first table that has the index gives the text.
-/

namespace LevelScript

structure StringTable where
  language : Language
  texts : Array String
  deriving DecidableEq, Repr, Inhabited

namespace StringTable

/-- The text at an index; there is none below zero or past the end. -/
def get? (t : StringTable) (index : Int32) : Option String :=
  if index < 0 then none else t.texts[index.toNatClampNeg]?

end StringTable

/-- Tables of different languages, in the order in which they were added. -/
structure Strings where
  tables : List StringTable
  deriving DecidableEq, Repr, Inhabited

namespace Strings

def empty : Strings := ⟨[]⟩

def table? (s : Strings) (l : Language) : Option StringTable :=
  s.tables.find? (·.language == l)

/-- Adds a table; the first one of a language stays. -/
def insert (s : Strings) (t : StringTable) : Strings :=
  if (s.table? t.language).isSome then s else ⟨s.tables ++ [t]⟩

/-- What adding a table reports. -/
def insertReport (s : Strings) (t : StringTable) : List Diagnostic :=
  if (s.table? t.language).isSome then [.duplicateTable t.language] else []

def languages (s : Strings) : List Language := s.tables.map (·.language)

def lookup (s : Strings) (index : Int32) (locale : Language) : Option String :=
  locale.fallbackChain.findSome? fun l => (s.table? l).bind (·.get? index)

end Strings

end LevelScript
