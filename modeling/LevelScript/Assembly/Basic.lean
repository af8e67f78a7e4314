import LevelScript.Opcode.Table
import LevelScript.Program.Basic
import LevelScript.Text.Encoding

/-!
# Assembly sources

A module is described by declarations in order: texts, scripts and functions with their code,
arrays and first values. Code is a list of items; jumps name labels, which are bound somewhere
in the module's code.

* `Draft.ofDeclarations` collects the declarations and the code bytes; offsets of labels are
  still to be filled in.
-/

namespace LevelScript.Assembly

/-- A position in code, known by a number. -/
abbrev Label := Nat

/-- A piece of code. -/
inductive CodeItem where
  /-- Any opcode number, also one that is no opcode. -/
  | opcode (number : UInt32)
  | word (v : Int32)
  | byte (v : UInt8)
  /-- An index: a word in wide code, a byte in compact code. -/
  | index (v : UInt32)
  /-- Zero bytes up to the next multiple of four. -/
  | align
  /-- The label stands for the offset here. -/
  | bind (label : Label)
  /-- A word with the offset of the label. -/
  | target (label : Label)
  /-- A sorted case jump with its table, in the order of the values. -/
  | cases (entries : List (Int32 × Label))
  deriving DecidableEq, Repr, Inhabited

namespace CodeItem

def op (o : Opcode) : CodeItem := .opcode o.number

/-- Pushes a number. -/
def push (v : Int32) : List CodeItem := [op .pushNumber, .word v]

/-- A jump to a label. -/
def jump (o : Opcode) (label : Label) : List CodeItem := [op o, .target label]

end CodeItem

inductive Declaration where
  /-- A text of the neutral table. -/
  | text (s : String)
  /-- The whole table of a language. -/
  | table (language : Language) (texts : List String)
  | script (number : Int32) (typeTag : UInt16) (argCount : UInt8) (code : List CodeItem)
  | flags (script : Int32) (flags : ScriptFlags)
  | locals (script : Int32) (count : UInt16)
  | function (argCount localCount : UInt8) (hasReturn : Bool)
  /-- A function that another module has. -/
  | imported (argCount : UInt8) (hasReturn : Bool)
  /-- The code of a declared function. -/
  | define (function : UInt32) (code : List CodeItem)
  | array (slot : UInt32) (init : List Int32) (size : UInt32)
  | mapInit (first : UInt32) (values : List Int32)
  deriving DecidableEq, Repr, Inhabited

/-- A declared array: its map variable, length and first values. -/
structure ArrayDraft where
  slot : UInt32
  size : UInt32
  init : List Int32
  deriving DecidableEq, Repr, Inhabited

/-- A module being put together. -/
structure Draft where
  width : CodeWidth
  /-- The header's eight bytes and the code so far. -/
  code : Array UInt8
  scripts : List Script
  functions : Array Function
  arrays : List ArrayDraft
  mapInits : List (UInt32 × List Int32)
  /-- The neutral table, then the others as they were first given. -/
  tables : List (Language × List String)
  /-- Bound labels, the latest first. -/
  labels : List (Label × UInt32)
  /-- Offsets of words that wait for a label. -/
  fixups : List (Nat × Label)
  deriving Repr, Inhabited

namespace Draft

/-- Code starts after the header. -/
def headerLength : Nat := 8

def empty (width : CodeWidth) : Draft where
  width := width
  code := Array.replicate headerLength 0
  scripts := []
  functions := #[]
  arrays := []
  mapInits := []
  tables := [(.neutral, [])]
  labels := []
  fixups := []

/-- The offset of the next byte of code. -/
def here (d : Draft) : UInt32 := d.code.size.toUInt32

def emit (d : Draft) (bytes : List UInt8) : Draft := { d with code := d.code ++ bytes }

/-! ## Code -/

/-- An opcode number in code. Compact numbers from 240 on take two bytes. -/
def opcodeBytes (width : CodeWidth) (number : UInt32) : List UInt8 :=
  match width with
  | .wide => Bytes.le32 number
  | .compact =>
    if number < 240 then [number.toUInt8]
    else [((240 : UInt32) + ((number - 240) >>> 8)).toUInt8, (number - 240).toUInt8]

def indexBytes (width : CodeWidth) (v : UInt32) : List UInt8 :=
  match width with
  | .wide => Bytes.le32 v
  | .compact => [v.toUInt8]

def emitOpcode (d : Draft) (number : UInt32) : Draft := d.emit (opcodeBytes d.width number)

def emitWord (d : Draft) (v : Int32) : Draft := d.emit (Bytes.le32 v.toUInt32)

def emitTarget (d : Draft) (label : Label) : Draft :=
  { d with fixups := (d.code.size, label) :: d.fixups }.emitWord 0

def emitAlign (d : Draft) : Draft :=
  d.emit (List.replicate ((4 - d.code.size % 4) % 4) 0)

def emitCase (d : Draft) (entry : Int32 × Label) : Draft :=
  (d.emitWord entry.1).emitTarget entry.2

def emitItem (d : Draft) : CodeItem → Draft
  | .opcode number => d.emitOpcode number
  | .word v => d.emitWord v
  | .byte v => d.emit [v]
  | .index v => d.emit (indexBytes d.width v)
  | .align => d.emitAlign
  | .bind label => { d with labels := (label, d.here) :: d.labels }
  | .target label => d.emitTarget label
  | .cases entries =>
    let sorted := entries.mergeSort fun e f => e.1 ≤ f.1
    let head := ((d.emitOpcode Opcode.caseGotoSorted.number).emitAlign).emitWord
      (Int32.ofNat sorted.length)
    sorted.foldl emitCase head

def emitCode (d : Draft) (code : List CodeItem) : Draft := code.foldl emitItem d

/-! ## Declarations -/

/-- Changes the first script with the number, if there is one. -/
def modifyScript (d : Draft) (number : Int32) (f : Script → Script) : Draft :=
  { d with scripts := d.scripts.modify (d.scripts.findIdx (·.number == number)) f }

/-- Puts a table in the place of the one of its language, or at the end. -/
def setTable (language : Language) (texts : List String) :
    List (Language × List String) → List (Language × List String)
  | [] => [(language, texts)]
  | t :: rest =>
    if t.1 == language then (language, texts) :: rest else t :: setTable language texts rest

/-- Adds a text to the first table. -/
def addText (s : String) : List (Language × List String) → List (Language × List String)
  | [] => []
  | t :: rest => (t.1, t.2 ++ [s]) :: rest

def declare (d : Draft) : Declaration → Draft
  | .text s => { d with tables := addText s d.tables }
  | .table language texts => { d with tables := setTable language texts d.tables }
  | .script number typeTag argCount code =>
    let script : Script := ⟨number, typeTag, argCount, d.here, .none, none⟩
    { d with scripts := d.scripts ++ [script] }.emitCode code
  | .flags script flags => d.modifyScript script fun s => { s with flags := flags }
  | .locals script count => d.modifyScript script fun s => { s with localCount := some count }
  | .function argCount localCount hasReturn =>
    { d with functions := d.functions.push ⟨argCount, localCount, hasReturn, 0, 0⟩ }
  | .imported argCount hasReturn =>
    { d with functions := d.functions.push ⟨argCount, 0, hasReturn, 1, 0⟩ }
  | .define function code =>
    { d with
      functions := d.functions.modify function.toNat fun f => { f with entry := d.here } }.emitCode
      code
  | .array slot init size => { d with arrays := d.arrays ++ [⟨slot, size, init⟩] }
  | .mapInit first values => { d with mapInits := d.mapInits ++ [(first, values)] }

def ofDeclarations (width : CodeWidth) (declarations : List Declaration) : Draft :=
  declarations.foldl declare (empty width)

end Draft

end LevelScript.Assembly
