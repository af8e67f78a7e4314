import LevelScript.Machine.Arithmetic
import LevelScript.Machine.Print

/-!
# Questions to the world

Instructions that push what the world answers. A question about whoever started the script is
asked only while that actor exists; otherwise the answer is zero.
-/

namespace LevelScript.Exec

variable {ω : Type} [Host ω]

/-- Pushes the answer to a question about the activator. -/
def pushOfActivator (question : Actor → Exec ω Int32) : Exec ω Unit := do
  match ← activator with
  | some a => push (← question a)
  | none => push 0

def pushRandom (v : Values 2) : Exec ω Unit := do
  push (← ask (.random (v.nth 0) (v.nth 1)))

def thingCount (v : Values 2) : Exec ω Unit := do
  push (← ask (.thingCount (v.nth 0) (v.nth 1)))

def pushPlayerNumber : Exec ω Unit := do
  match ← activator with
  | none => push (-1)
  | some a =>
    match ← ask (.playerNumber a) with
    | some n => push n.toUInt32.toInt32
    | none => push (-1)

def pushPlayerInGame : Exec ω Unit := do
  match player? (← pop) with
  | some p => push (flag (← ask (.playerInGame p)))
  | none => push 0

def pushPosition (axis : Axis) : Exec ω Unit := do
  let tid ← pop
  let p ← ask (.actorPosition tid)
  push (p.coordinate axis)

def checkInventory (name : Int32) : Exec ω Unit := do
  let item ← text name
  pushOfActivator fun a => ask (.inventoryCount a item)

omit [Host ω] in
/-- Pushes how many characters a text has. -/
def pushTextLength : Exec ω Unit := do
  let ctx ← read
  let index ← pop
  match ctx.program.text? index ctx.config.locale with
  | some s => push (Int32.ofNat s.length)
  | none => push 0

end LevelScript.Exec
