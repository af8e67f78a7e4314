import LevelScript.Config
import LevelScript.Instruction.Basic
import LevelScript.Machine.Instance
import LevelScript.Session.Basic
import LevelScript.World.Host

/-!
# The machine

While an instance runs, a machine holds it together with all it can touch: the operand stack,
the map's memory, the session and the world. A step of the machine gives a value and the next
machine, or a fault and the machine as the fault left it.

The stack is shared: slots below the context's base belong to others, and no operation here goes
below it.
-/

namespace LevelScript

structure Machine (ω : Type) where
  inst : Instance
  stack : Array Slot
  memory : MapMemory
  session : Session
  world : ω
  /-- Requests to other scripts, in the order they were raised. -/
  requests : Array Request
  journal : Journal

/-- What does not change while an instance runs. -/
structure Context where
  program : Program
  config : Config
  /-- Where the instance's part of the stack starts. -/
  base : Nat

/-- Values that an instruction takes, in the order in which they were pushed. -/
abbrev Values (n : Nat) := Vector Int32 n

/-- The value at a place. -/
def Values.nth {n : Nat} (v : Values n) (i : Nat) : Int32 := v.getD i 0

/-- A computation of the machine. -/
abbrev Exec (ω : Type) := ReaderT Context (EStateM Fault (Machine ω))

namespace Exec

variable {ω : Type}

/-! ## The instance and the journal -/

def modifyInst (f : Instance → Instance) : Exec ω Unit := fun _ m =>
  .ok () { m with inst := f m.inst }

def getInst : Exec ω Instance := fun _ m => .ok m.inst m

def setStatus (s : Status) : Exec ω Unit := modifyInst ({ · with status := s })

def jump (pc : UInt32) : Exec ω Unit := modifyInst ({ · with pc := pc })

def note (d : Diagnostic) : Exec ω Unit := fun _ m =>
  .ok () { m with journal := m.journal.note d }

/-- Raises a request to another script. -/
def raise (r : Request) : Exec ω Unit := fun _ m =>
  .ok () { m with requests := m.requests.push r }

/-- The value of a reading, or its fault. -/
def ofExcept {α : Type} : Except Fault α → Exec ω α
  | .ok v => pure v
  | .error f => throw f

/-! ## The operand stack -/

def pushSlot (s : Slot) : Exec ω Unit := fun ctx m =>
  if m.stack.size < ctx.config.stackCapacity then .ok () { m with stack := m.stack.push s }
  else .error (.stackOverflow ctx.config.stackCapacity) m

def push (v : Int32) : Exec ω Unit := pushSlot (.value v)

def pop : Exec ω Int32 := fun ctx m =>
  if m.stack.size ≤ ctx.base then .error .stackUnderflow m
  else match m.stack.back? with
    | some (.value v) => .ok v { m with stack := m.stack.pop }
    | some (.record _) => .error (.badFrame (m.stack.size - 1)) { m with stack := m.stack.pop }
    | none => .error .stackUnderflow m

/-- The value in a slot. -/
def valueAt (slot : Nat) : Exec ω Int32 := fun _ m =>
  match m.stack[slot]? with
  | some (.value v) => .ok v m
  | _ => .error (.badFrame slot) m

/-- The topmost value, which stays. -/
def peek : Exec ω Int32 := fun ctx m =>
  if m.stack.size ≤ ctx.base then .error .stackUnderflow m
  else valueAt (m.stack.size - 1) ctx m

/-- Pops values, given in the order in which they were pushed. -/
def popMany : (n : Nat) → Exec ω (Values n)
  | 0 => pure #v[]
  | n + 1 => do
    let last ← pop
    let first ← popMany n
    pure (first.push last)

/-- How many slots the instance has. -/
def depth : Exec ω Nat := fun ctx m => .ok (m.stack.size - ctx.base) m

/-- Cuts the instance's part of the stack down to a depth. -/
def truncate (depth : Nat) : Exec ω Unit := fun ctx m =>
  .ok () { m with stack := m.stack.shrink (ctx.base + depth) }

/-! ## Operands -/

/-- Reads from the code at the instance's offset, which moves behind what was read. -/
def readCode {α : Type} (read : Program → UInt32 → Except Fault (α × UInt32)) : Exec ω α :=
  fun ctx m =>
    match read ctx.program m.inst.pc with
    | .ok (v, next) => .ok v { m with inst := { m.inst with pc := next } }
    | .error f => .error f m

/-- Reads the number of an instruction. -/
def fetch : Exec ω UInt32 := readCode fun p => Code.readNumber p.codeWidth p.image

/-- An index operand. -/
def index : Exec ω UInt32 := readCode fun p => Code.readIndex p.codeWidth p.image

/-- An operand of four bytes. -/
def word : Exec ω Int32 := do
  let w ← readCode fun p => Code.readWord p.image
  pure w.toInt32

/-- An operand of one byte. -/
def raw : Exec ω Int32 := do
  let b ← readCode fun p => Code.readRaw p.image
  pure b.toUInt32.toInt32

/-- Several values, one after another. -/
def many (one : Exec ω Int32) : (n : Nat) → Exec ω (Values n)
  | 0 => pure #v[]
  | n + 1 => do
    let first ← many one n
    let last ← one
    pure (first.push last)

/-- The value of an instruction that takes one. -/
def argument : Source → Exec ω Int32
  | .stack => pop
  | .words => word
  | .bytes => raw

/-- The values of an instruction that takes `n`. -/
def arguments (n : Nat) : Source → Exec ω (Values n)
  | .stack => popMany n
  | .words => many word n
  | .bytes => many raw n

/-! ## The host -/

variable [Host ω]

def ask (c : Call) : Exec ω c.Reply := fun _ m =>
  match m with
  | ⟨inst, stack, memory, session, world, requests, journal⟩ =>
    let (reply, world) := Host.answer c world
    .ok reply ⟨inst, stack, memory, session, world, requests,
      journal.noteAll (Host.remarks ω c)⟩

/-- Performs an effect and then sends it; gives the effect's result, or zero if it has none. -/
def perform (e : Effect) : Exec ω Int32 := do
  let result ← ask (.perform e)
  ask (.broadcast e)
  pure (if e.hasResult then result else 0)

/-- Performs an effect that has no result. -/
def act (e : Effect) : Exec ω Unit := do
  let _ ← perform e

/-- Who started the instance, if it still exists. -/
def activator : Exec ω (Option Actor) := do
  match (← getInst).activator with
  | none => pure none
  | some a => if ← ask (.actorAlive a) then pure (some a) else pure none

/-- Who started the instance, if it is a player; otherwise everyone is meant. -/
def playerTarget : Exec ω (Option Actor) := do
  match ← activator with
  | none => pure none
  | some a => if (← ask (.playerNumber a)).isSome then pure (some a) else pure none

omit [Host ω] in
/-- A text of the program; one that is missing is empty. -/
def text (index : Int32) : Exec ω String := do
  let ctx ← read
  match ctx.program.text? index ctx.config.locale with
  | some s => pure s
  | none =>
    note (.textMissing index ctx.config.locale)
    pure ""

end Exec

end LevelScript
