import LevelScript.Machine.Arithmetic
import LevelScript.Machine.Basic

/-!
# Variables and arrays

A script variable is in the instance, or in the current function's frame on the stack. Reading
outside a scope gives zero and writing there changes nothing; both are noted for variables, and
neither is for arrays.
-/

namespace LevelScript.Exec

variable {ω : Type}

/-! ## Variables -/

/-- The function whose frame is current. -/
def currentFunction : Exec ω (Option Function) := fun ctx m =>
  .ok (m.inst.function.bind ctx.program.function?) m

/-- The slot of a variable of the current function, if the frame has it. -/
def frameSlot (base index : UInt32) : Exec ω (Option Nat) := do
  let ctx ← read
  match ← currentFunction with
  | none => throw (.badFrame ctx.base)
  | some f =>
    if index.toNat < f.frameSize then pure (some (ctx.base + base.toNat + index.toNat))
    else pure none

/-- The value of a variable, if its scope has it. -/
def readVar (scope : Scope) (index : UInt32) : Exec ω (Option Int32) := do
  match scope with
  | .script =>
    let inst ← getInst
    match inst.frame with
    | .script => pure inst.locals[index.toNat]?
    | .stack base =>
      match ← frameSlot base index with
      | some slot => pure (some (← valueAt slot))
      | none => pure none
  | .map => fun _ m => .ok (m.memory.var? index.toNat) m
  | .world => fun _ m => .ok (m.session.worldVar? index.toNat) m
  | .global => fun _ m => .ok (m.session.globalVar? index.toNat) m

/-- The value of a variable, or zero. -/
def loadVar (scope : Scope) (index : UInt32) : Exec ω Int32 := do
  match ← readVar scope index with
  | some v => pure v
  | none =>
    note (.variableOutOfRange (← getInst).number scope index)
    pure 0

/-- Overwrites a value on the stack. -/
def setValueAt (slot : Nat) (v : Int32) : Exec ω Unit := fun _ m =>
  match m.stack[slot]? with
  | some (.value _) => .ok () { m with stack := m.stack.setIfInBounds slot (.value v) }
  | _ => .error (.badFrame slot) m

/-- Writes a variable of the instance. -/
def writeLocal (i : Nat) (v : Int32) : Exec ω Bool := fun _ m =>
  .ok (decide (i < m.inst.locals.size))
    { m with inst := { m.inst with locals := m.inst.locals.setIfInBounds i v } }

def writeMapVar (i : Nat) (v : Int32) : Exec ω Bool := fun _ m =>
  .ok (decide (i < mapVarCount)) { m with memory := m.memory.setVar i v }

def writeWorldVar (i : Nat) (v : Int32) : Exec ω Bool := fun _ m =>
  .ok (decide (i < worldCount)) { m with session := m.session.setWorldVar i v }

def writeGlobalVar (i : Nat) (v : Int32) : Exec ω Bool := fun _ m =>
  .ok (decide (i < globalCount)) { m with session := m.session.setGlobalVar i v }

/-- Writes a variable; tells whether its scope has it. -/
def writeVar (scope : Scope) (index : UInt32) (v : Int32) : Exec ω Bool := do
  match scope with
  | .script =>
    match (← getInst).frame with
    | .script => writeLocal index.toNat v
    | .stack base =>
      match ← frameSlot base index with
      | some slot =>
        setValueAt slot v
        pure true
      | none => pure false
  | .map => writeMapVar index.toNat v
  | .world => writeWorldVar index.toNat v
  | .global => writeGlobalVar index.toNat v

def storeVar (scope : Scope) (index : UInt32) (v : Int32) : Exec ω Unit := do
  unless ← writeVar scope index v do
    note (.variableOutOfRange (← getInst).number scope index)

/-- The operand of an update, which steps by one if it takes none. -/
def updateOperand (u : Update) : Exec ω Int32 :=
  if u.takesOperand then pop else pure 1

/-- Changes a variable. -/
def updateVar (u : Update) (scope : Scope) (index : UInt32) : Exec ω Unit := do
  let operand ← updateOperand u
  let current ← if u == .assign then pure 0 else loadVar scope index
  match u.updated? current operand with
  | some v => storeVar scope index v
  | none => setStatus u.zeroStatus

/-! ## Arrays -/

/-- An element of an array; zero if there is none. -/
def loadElement (scope : ArrayScope) (slot : UInt32) (element : Int32) : Exec ω Int32 :=
  let i := slot.toNat
  match scope with
  | .map => fun _ m =>
    .ok (match m.memory.var? i with
      | some array => m.memory.element array element
      | none => 0) m
  | .world => fun _ m =>
    .ok (match m.session.worldArray? i with
      | some a => a.get element
      | none => 0) m
  | .global => fun _ m =>
    .ok (match m.session.globalArray? i with
      | some a => a.get element
      | none => 0) m

def storeElement (scope : ArrayScope) (slot : UInt32) (element v : Int32) : Exec ω Unit :=
  let i := slot.toNat
  match scope with
  | .map => fun _ m =>
    .ok () (match m.memory.var? i with
      | some array => { m with memory := m.memory.setElement array element v }
      | none => m)
  | .world => fun _ m => .ok () { m with session := m.session.setWorldElement i element v }
  | .global => fun _ m => .ok () { m with session := m.session.setGlobalElement i element v }

/-- Changes an element of an array. -/
def updateElement (u : Update) (scope : ArrayScope) (slot : UInt32) : Exec ω Unit := do
  let operand ← updateOperand u
  let element ← pop
  let current ← loadElement scope slot element
  match u.updated? current operand with
  | some v => storeElement scope slot element v
  | none => setStatus u.zeroStatus

end LevelScript.Exec
