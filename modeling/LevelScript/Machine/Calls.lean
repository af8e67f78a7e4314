import LevelScript.Machine.Variables

/-!
# Calls of functions

A call takes its arguments where they are on the stack, puts zeros for the other variables and a
return record above them, and goes to the function. A return cuts all of it off, goes back to
where the record says, and pushes the result unless the call discards it.
-/

namespace LevelScript.Exec

variable {ω : Type}

def pushZeros : Nat → Exec ω Unit
  | 0 => pure ()
  | n + 1 => do
    push 0
    pushZeros n

/-- Calls the function with an index. -/
def call (index : UInt32) (discard : Bool) : Exec ω Unit := do
  let ctx ← read
  match ctx.program.function? index with
  | none => throw (.functionOutOfRange index ctx.program.functions.size)
  | some f =>
    if f.isImported then
      throw (.unresolvedFunction index)
    let argc := f.argCount.toNat
    let depth ← depth
    if depth < argc then
      throw .stackUnderflow
    let extra := f.frameSize - argc
    if ctx.config.stackCapacity < ctx.base + depth + extra + 1 then
      throw (.stackOverflow ctx.config.stackCapacity)
    pushZeros extra
    let inst ← getInst
    pushSlot (.record ⟨inst.pc, inst.frame, inst.function, discard⟩)
    modifyInst ({ · with
      frame := .stack (depth - argc).toUInt32
      function := some index
      pc := f.entry })

/-- Returns a value from the current function. -/
def ret (v : Int32) : Exec ω Unit := do
  let ctx ← read
  match (← getInst).frame with
  | .script => throw .returnOutsideFunction
  | .stack base =>
    match ← currentFunction with
    | none => throw .returnOutsideFunction
    | some f =>
      let slot := ctx.base + base.toNat + f.frameSize
      match (← get).stack[slot]? with
      | some (.record r) =>
        truncate base.toNat
        modifyInst ({ · with
          pc := r.returnPc
          frame := r.callerFrame
          function := r.callerFunction })
        unless r.discardResult do
          push v
      | _ => throw (.badFrame slot)

end LevelScript.Exec
