import LevelScript.Instruction.Basic
import LevelScript.Program.Basic

/-!
# Listings

The code of a program as text, one body for each script and each function it holds, by address.
A body runs up to the next entry. The last one stops at its first unconditional exit, because
texts may follow the code.

* `Listing.bodies` lists a program, with a report on each body that stops where no instruction
  can be read.
-/

namespace LevelScript.Listing

/-- One instruction as text. -/
structure Row where
  address : UInt32
  mnemonic : String
  operands : List String
  deriving DecidableEq, Repr, Inhabited

structure Body where
  kind : BodyKind
  /-- The number of the script or the place of the function. -/
  id : Int32
  address : UInt32
  argCount : UInt8
  rows : List Row
  deriving DecidableEq, Repr, Inhabited

/-! ## Rows -/

def addressText (target : Int32) : String := "0x" ++ Text.upperHex target.toUInt32.toNat

def intText (v : Int32) : String := toString v.toInt

/-- Cases as value and target. -/
def caseTexts : List Int32 → List String
  | v :: target :: rest => (intText v ++ ":" ++ addressText target) :: caseTexts rest
  | _ => []

def operandTexts (op : Opcode) (operands : List Int32) : List String :=
  match op, operands with
  | .goto, [target] | .branch _, [target] => [addressText target]
  | .caseGoto, [v, target] => [intText v, addressText target]
  | .caseGotoSorted, _ :: cases => caseTexts cases
  | .call _, [index] => ["fn" ++ intText index]
  | _, operands => operands.map intText

def row (inst : Instruction) : Row where
  address := inst.offset
  mnemonic := inst.mnemonic
  operands := match inst.opcode with
    | some op => operandTexts op inst.operands.toList
    | none => []

def Row.text (r : Row) : String :=
  let head := Text.upperHexPadded 6 r.address.toNat ++ "  " ++ r.mnemonic
  if r.operands.isEmpty then head else head ++ " " ++ ", ".intercalate r.operands

/-! ## Bodies -/

/-- A body that is still to be read. -/
structure Start where
  kind : BodyKind
  id : Int32
  entry : UInt32
  argCount : UInt8
  deriving DecidableEq, Repr, Inhabited

/-- Scripts, then the functions with code, ordered by their entries. -/
def starts (p : Program) : List Start :=
  let scripts := p.scripts.map fun s => ⟨.script, s.number, s.entry, s.argCount⟩
  let functions := (p.functions.toList.zipIdx.filter fun f => !f.1.isImported).map fun f =>
    ⟨.function, Int32.ofNat f.2, f.1.entry, f.1.argCount⟩
  (scripts ++ functions).mergeSort fun s t => s.entry ≤ t.entry

/-- The first offset after the code, from the header. -/
def codeEnd (p : Program) : UInt32 :=
  let header := (p.image.word? 4).getD 0
  let stop := match p.layout with
    | .legacyChunked _ => if header < 8 then 0 else header - 8
    | .legacy | .enhanced _ => header
  min stop p.image.size.toUInt32

/-- Instructions from an offset to a limit, and the offset and fault that stopped the reading.
Each takes at least a byte, so `fuel` is the number of bytes left. -/
def decodeRows (p : Program) (limit : UInt32) (last : Bool) :
    Nat → UInt32 → List Row × Option (UInt32 × Fault)
  | 0, _ => ([], none)
  | fuel + 1, pc =>
    if limit ≤ pc then ([], none)
    else match Instruction.decode p.codeWidth p.image pc with
      | .error f => ([], some (pc, f))
      | .ok inst =>
        if last && inst.endsBlock then ([row inst], none)
        else
          let (rows, stopped) := decodeRows p limit last fuel inst.next
          (row inst :: rows, stopped)

/-- The first entry after a body's own. -/
def nextEntry (all : List Start) (entry : UInt32) : Option UInt32 :=
  (all.map (·.entry)).find? (entry < ·)

def body (p : Program) (all : List Start) (s : Start) : Body × List Diagnostic :=
  let next := nextEntry all s.entry
  let limit := next.getD (codeEnd p)
  let (rows, stopped) :=
    decodeRows p limit next.isNone (limit.toNat - s.entry.toNat) s.entry
  let report := match stopped with
    | some (pc, f) => [.listingStopped s.kind s.id pc f]
    | none => []
  (⟨s.kind, s.id, s.entry, s.argCount, rows⟩, report)

/-- All bodies of a program and what reading them reports. -/
def bodies (p : Program) : List Body × List Diagnostic :=
  let all := starts p
  let read := all.map (body p all)
  (read.map (·.1), read.flatMap (·.2))

/-- The body of a script. -/
def script? (all : List Body) (number : Int32) : Option Body :=
  all.find? fun b => b.kind == .script && b.id == number

end LevelScript.Listing
