import LevelScript.Journal
import LevelScript.Opcode.Table

/-!
# Instructions

An instruction is an opcode and its operands as they stand in the code. Reading takes an offset
and gives the value with the offset after it, or the fault that the code ends too early.

* `Instruction.decode` reads one instruction.
* `Operands.read` also keeps what it read before the code ended, because an instruction that
  pushes its operands has pushed those.
-/

namespace LevelScript

structure Instruction where
  offset : UInt32
  number : UInt32
  /-- Missing when the number is no opcode; such an instruction has no operands. -/
  opcode : Option Opcode
  /-- A byte list starts with its count; a case table with its count, then values and targets
  in turn. -/
  operands : Array Int32
  /-- The offset after the instruction. -/
  next : UInt32
  deriving DecidableEq, Repr, Inhabited

namespace Code

/-! ## Reading numbers -/

def endFault (image : Image) (pc : UInt32) : Fault :=
  .pcOutOfRange pc image.size.toUInt32

def readWord (image : Image) (pc : UInt32) : Except Fault (UInt32 × UInt32) :=
  match image.word? pc.toNat with
  | some w => .ok (w, pc + 4)
  | none => .error (endFault image pc)

def readRaw (image : Image) (pc : UInt32) : Except Fault (UInt8 × UInt32) :=
  match image[pc.toNat]? with
  | some b => .ok (b, pc + 1)
  | none => .error (endFault image pc)

def readIndex (width : CodeWidth) (image : Image) (pc : UInt32) :
    Except Fault (UInt32 × UInt32) :=
  match width with
  | .wide => readWord image pc
  | .compact => (readRaw image pc).map fun (b, pc) => (b.toUInt32, pc)

/-- Compact numbers from 240 on take a second byte. -/
def readNumber (width : CodeWidth) (image : Image) (pc : UInt32) :
    Except Fault (UInt32 × UInt32) :=
  match width with
  | .wide => readWord image pc
  | .compact => do
    let (b₀, pc) ← readRaw image pc
    if b₀ < 240 then
      return (b₀.toUInt32, pc)
    let (b₁, pc) ← readRaw image pc
    return ((240 : UInt32) + ((b₀.toUInt32 - 240) <<< 8) + b₁.toUInt32, pc)

/-- The next multiple of four. -/
def align (pc : UInt32) : UInt32 :=
  (pc + 3) &&& ~~~3

/-- Where a case table starts and how many cases it has, if all of them are in the image. -/
def caseTable (image : Image) (pc : UInt32) : Except Fault (UInt32 × UInt32) := do
  let base := align pc
  let (count, start) ← readWord image base
  if image.size < start.toNat + count.toNat * 8 then
    .error (endFault image base)
  return (base, count)

end Code

/-! ## Reading operands -/

/-- Operands read so far, the offset after them, and the fault that stopped the reading. -/
structure Operands where
  values : Array Int32
  next : UInt32
  fault : Option Fault
  deriving Repr, Inhabited

namespace Operands

/-- Appends a number, or stops at the fault of reading it. -/
def add (ops : Operands) : Except Fault (UInt32 × UInt32) → Operands
  | .ok (v, pc) => { ops with values := ops.values.push v.toInt32, next := pc }
  | .error f => { ops with fault := some f }

/-- Reads `count` numbers one after another, up to the first that is missing. -/
def readMany (read : UInt32 → Except Fault (UInt32 × UInt32)) : Nat → Operands → Operands
  | 0, ops => ops
  | count + 1, ops =>
    match ops.fault with
    | some _ => ops
    | none => readMany read count (ops.add (read ops.next))

def rawAsWord (image : Image) (pc : UInt32) : Except Fault (UInt32 × UInt32) :=
  (Code.readRaw image pc).map fun (b, pc) => (b.toUInt32, pc)

/-- Reads one operand after those already read. -/
def readKind (width : CodeWidth) (image : Image) (ops : Operands) : OperandKind → Operands
  | .word => ops.add (Code.readWord image ops.next)
  | .index => ops.add (Code.readIndex width image ops.next)
  | .raw => ops.add (rawAsWord image ops.next)
  | .rawList =>
    match Code.readRaw image ops.next with
    | .error f => { ops with fault := some f }
    | .ok (count, pc) =>
      readMany (rawAsWord image) count.toNat (ops.add (.ok (count.toUInt32, pc)))
  | .caseTable =>
    match Code.caseTable image ops.next with
    | .error f => { ops with fault := some f }
    | .ok (base, count) =>
      readMany (Code.readWord image) (count.toNat * 2) (ops.add (.ok (count, base + 4)))

/-- Reads the operands of a layout. -/
def read (width : CodeWidth) (image : Image) (layout : List OperandKind) (pc : UInt32) :
    Operands :=
  layout.foldl
    (fun ops kind => if ops.fault.isSome then ops else readKind width image ops kind)
    ⟨#[], pc, none⟩

end Operands

/-! ## Reading instructions -/

namespace Instruction

def decode (width : CodeWidth) (image : Image) (offset : UInt32) :
    Except Fault Instruction := do
  let (number, pc) ← Code.readNumber width image offset
  match Opcode.ofNumber? number with
  | none => return ⟨offset, number, none, #[], pc⟩
  | some op =>
    let ops := Operands.read width image op.layout pc
    match ops.fault with
    | some f => .error f
    | none => return ⟨offset, number, some op, ops.values, ops.next⟩

def mnemonic (inst : Instruction) : String :=
  match inst.opcode with
  | some op => op.mnemonic
  | none => s!"unknown_{inst.number}"

def endsBlock (inst : Instruction) : Bool :=
  inst.opcode.any (·.endsBlock)

end Instruction

end LevelScript
