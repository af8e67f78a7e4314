import LevelScript.Toml.Scalar
import LevelScript.Toml.Table

/-!
# TOML files

Reads a TOML file as a document. A file has lines with a name and a value, headers of tables,
comments and empty lines; a value may be a list over several lines or a table within braces.
-/

namespace LevelScript.Toml

/-! ## Blanks and names -/

def skipWhite (s : List Char) : List Char := s.dropWhile isWhite

/-- Skips blanks, line ends and comments; `inComment` says whether a comment has begun. -/
def skipLines : Bool → List Char → List Char
  | true, '\n' :: rest => skipLines false rest
  | true, '\r' :: '\n' :: rest => skipLines false rest
  | true, c :: rest => if isVisible c then skipLines true rest else c :: rest
  | false, '\r' :: '\n' :: rest => skipLines false rest
  | false, c :: rest =>
    if c == '#' then skipLines true rest
    else if isWhite c || c == '\n' then skipLines false rest
    else c :: rest
  | _, [] => []

/-- What follows a line of which nothing is left but blanks and a comment. -/
def restOfLine? (s : List Char) : Option (List Char) :=
  match skipWhite s with
  | '#' :: rest => lineEnd? (rest.dropWhile isVisible)
  | s => lineEnd? s

/-- One part of a name. -/
def namePart? : Reader String
  | '"' :: rest => basicText [] rest
  | '\'' :: rest => literalText [] rest
  | s =>
    let part := s.takeWhile isBareKeyChar
    if part.isEmpty then none else some (String.ofList part, s.drop part.length)

/-- How many levels of lists and tables a value may have, and how many parts a name. -/
def nesting : Nat := 79

/-- The parts of a name with dots between them, at most so many. -/
def nameParts : Nat → Reader (List String)
  | 0, _ => none
  | most + 1, s => do
    let (part, s) ← namePart? s
    match skipWhite s with
    | '.' :: rest =>
      let (parts, s) ← nameParts most (skipWhite rest)
      some (part :: parts, s)
    | _ => some ([part], s)

/-- A name: the parts before its last one, and that one. -/
def name? : Reader (List String × String) := fun s => do
  let (parts, s) ← nameParts nesting s
  let last ← parts.getLast?
  some ((parts.dropLast, last), s)

/-- A name and the value after the equals sign. -/
def pair? (value? : Reader Document) : Reader ((List String × String) × Document) := fun s => do
  let (name, s) ← name? s
  let '=' :: s := skipWhite s | none
  let (d, s) ← value? (skipWhite s)
  some ((name, d), s)

/-! ## Values -/

/-- The items of a list, after those already read, which stand in reverse. There can be no more
of them than characters. -/
def listItems (value? : Reader Document) : Nat → List Document → Reader (List Document)
  | 0, _, _ => none
  | most + 1, read, s =>
    match skipLines false s with
    | ']' :: rest => some (read.reverse, rest)
    | s => do
      let (d, s) ← value? s
      match skipLines false s with
      | ',' :: rest => listItems value? most (d :: read) rest
      | ']' :: rest => some ((d :: read).reverse, rest)
      | _ => none

/-- The pairs of a table within braces, of which at least one follows. -/
def inlinePairs (value? : Reader Document) : Nat → Entries → Reader Entries
  | 0, _, _ => none
  | most + 1, entries, s => do
    let (((path, name), d), s) ← pair? value? (skipWhite s)
    let entries ← entries.assign path name d
    match skipWhite s with
    | ',' :: rest => inlinePairs value? most entries rest
    | '\x7d' :: rest => some (entries, rest)
    | _ => none

/-- A value, with at most so many levels of lists and tables. -/
def value? (levels : Nat) : Reader Document := fun s =>
  match s, levels with
  | '[' :: _, 0 | '\x7b' :: _, 0 => none
  | '[' :: rest, levels + 1 =>
    (listItems (value? levels) s.length [] rest).map fun r => (.list r.1, r.2)
  | '\x7b' :: rest, levels + 1 =>
    match skipWhite rest with
    | '\x7d' :: rest => some (.record [], rest)
    | rest => (inlinePairs (value? levels) s.length [] rest).map fun r =>
      (.record (entryDocuments r.1), r.2)
  | '"' :: _, _ | '\'' :: _, _ => (text? s).map fun r => (.text r.1, r.2)
  | _, _ => bareValue? s

/-! ## Files -/

/-- A file read so far: all entries, and the table that lines go to. -/
structure Progress where
  entries : Entries := []
  table : List String := []

/-- Adds a line with a value. -/
def Progress.assign (p : Progress) (path : List String) (name : String) (d : Document) :
    Option Progress := do
  let entries ← Entries.change false (fun _ inner => inner.assign path name d) p.table .header
    p.entries
  some { p with entries := entries }

/-- Reads one line, and the lines that its value goes on over. -/
def line? (p : Progress) (s : List Char) : Option (Progress × List Char) :=
  match skipWhite s with
  | '[' :: '[' :: rest => do
    let ((path, name), rest) ← name? (skipWhite rest)
    let ']' :: ']' :: rest := skipWhite rest | none
    let entries ← p.entries.openElement path name
    some (⟨entries, path ++ [name]⟩, ← restOfLine? rest)
  | '[' :: rest => do
    let ((path, name), rest) ← name? (skipWhite rest)
    let ']' :: rest := skipWhite rest | none
    let entries ← p.entries.openTable path name
    some (⟨entries, path ++ [name]⟩, ← restOfLine? rest)
  | '#' :: _ | '\n' :: _ | '\r' :: _ | [] => (restOfLine? s).map (p, ·)
  | s => do
    let (((path, name), d), rest) ← pair? (value? nesting) s
    some (← p.assign path name d, ← restOfLine? rest)

/-- Reads lines to the end; there can be no more of them than characters. -/
def lines? : Nat → Progress → List Char → Option Progress
  | _, p, [] => some p
  | 0, _, _ => none
  | most + 1, p, s => do
    let (p, rest) ← line? p s
    lines? most p rest

/-- Reads a file; a byte order mark at its start is skipped. -/
def parse? (text : String) : Option Document :=
  let s := match text.toList with
    | '\uFEFF' :: rest => rest
    | s => s
  (lines? s.length {} s).map fun p => .record (entryDocuments p.entries)

/-! ## Settings -/

/-- A file has no null: an empty table or list says that a case has no parts. -/
def caseWithoutParts : Document → Document
  | .record [(name, .record [])] | .record [(name, .list [])] => .tagged name .null
  | d => d

/-- Reads a file of settings, of which each is a plain value or a case. -/
def parseSettings? (text : String) : Option Document :=
  (parse? text).map fun d =>
    match d with
    | .record fields => .record (fields.map fun f => (f.1, caseWithoutParts f.2))
    | d => d

end LevelScript.Toml
