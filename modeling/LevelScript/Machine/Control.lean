import LevelScript.Machine.Arithmetic
import LevelScript.Machine.Basic

/-!
# Jumps, cases and waits

A case jump looks for the topmost value. A sorted case jump searches its table by halving; an
entry that is found takes the value off the stack, otherwise the value stays for the next case.
-/

namespace LevelScript.Exec

variable {ω : Type}

/-! ## Cases -/

/-- Looks for a value among the cases from `low` up to `high` of the table at `base`, taken to be
in ascending order. -/
def searchCases (image : Image) (base : UInt32) (v : Int32) (low high : Nat) :
    Except Fault (Option UInt32) :=
  if low < high then do
    let middle := low + (high - low) / 2
    let (key, next) ← Code.readWord image (base + 4 + middle.toUInt32 * 8)
    if key.toInt32 = v then
      let (target, _) ← Code.readWord image next
      return some target
    else if key.toInt32 < v then searchCases image base v (middle + 1) high
    else searchCases image base v low middle
  else return none
termination_by high - low
decreasing_by all_goals omega

/-- Jumps if the topmost value is the one of the case, which takes it off the stack. -/
def caseGoto (value : Int32) (target : UInt32) : Exec ω Unit := do
  if (← peek) == value then
    let _ ← pop
    jump target

def caseGotoSorted : Exec ω Unit := do
  let image := (← read).program.image
  let (base, count) ← ofExcept (Code.caseTable image (← getInst).pc)
  let v ← peek
  match ← ofExcept (searchCases image base v 0 count.toNat) with
  | some target =>
    let _ ← pop
    jump target
  | none => jump (base + 4 + count * 8)

/-! ## Jumps and waits -/

/-- Jumps if the topmost value is true or false, as asked. -/
def branch (whenTrue : Bool) (target : UInt32) : Exec ω Unit := do
  let v ← pop
  if (v != 0) == whenTrue then
    jump target

/-- Starts the script over; its variables and the text being built stay. -/
def restart : Exec ω Unit := do
  truncate 0
  modifyInst fun i => { i with frame := .script, function := none, pc := i.entry }

/-- Waits for some ticks; none unless their number is positive. -/
def delay (ticks : Int32) : Exec ω Unit :=
  if 0 < ticks then setStatus (.delayed ticks.toUInt32) else pure ()

/-! ## Values -/

/-- Pushes bytes of the code, each as it is read. -/
def pushRaw : Nat → Exec ω Unit
  | 0 => pure ()
  | n + 1 => do
    push (← raw)
    pushRaw n

def swap : Exec ω Unit := do
  let v ← popMany 2
  push (v.nth 1)
  push (v.nth 0)

def binary (op : Binary) : Exec ω Unit := do
  let v ← popMany 2
  push (op.apply (v.nth 0) (v.nth 1))

def division (op : Division) : Exec ω Unit := do
  let v ← popMany 2
  if v.nth 1 == 0 then setStatus op.zeroStatus
  else push (op.apply (v.nth 0) (v.nth 1))

def vectorAngle : Exec ω Unit := do
  let v ← popMany 2
  push (Angle.ofVector (v.nth 0) (v.nth 1))

end LevelScript.Exec
