import LevelScript.Machine.Basic

/-!
# Printing

A script builds a text piece by piece and then shows it, as a line or as a message on the
screen. A screen message takes six numbers from the stack, and further ones above a mark.
-/

namespace LevelScript.Exec

variable {ω : Type}

/-- Adds to the text being built. -/
def append (s : String) : Exec ω Unit := fun _ m =>
  .ok () { m with inst := { m.inst with print := m.inst.print ++ s } }

/-- Gives the text built so far, and starts a new one. -/
def takePrint : Exec ω String := fun _ m =>
  .ok m.inst.print { m with inst := { m.inst with print := "" } }

/-- The character with a number, a question mark if there is none. -/
def characterText (v : Int32) : String :=
  let n := v.toUInt32.toNat
  if n < 0xD800 ∨ (0xE000 ≤ n ∧ n < 0x110000) then (Char.ofNat n).toString else "?"

/-- The player number in a value, if it is one byte. -/
def player? (v : Int32) : Option UInt8 :=
  if 0 ≤ v && v ≤ 255 then some v.toUInt32.toUInt8 else none

variable [Host ω]

/-- The name of whoever started the script, or of a player counted from one. -/
def nameText (n : Int32) : Exec ω String := do
  if n ≤ 0 then
    match ← activator with
    | none => pure "Unknown"
    | some a => pure ((← ask (.actorName a)).getD "Unknown")
  else
    let other := s!"Player {n.toInt}"
    match player? (n - 1) with
    | none => pure other
    | some p =>
      if ← ask (.playerInGame p) then pure ((← ask (.playerName p)).getD other)
      else pure other

/-- Whom a text is for: everyone if it is bold. -/
def printTarget (bold : Bool) : Exec ω (Option Actor) :=
  if bold then pure none else playerTarget

def endPrint (bold : Bool) : Exec ω Unit := do
  let target ← printTarget bold
  let text ← takePrint
  act (.print target text bold)

omit [Host ω] in
/-- The values in `count` slots from one on. -/
def valuesFrom : Nat → Nat → Exec ω (List Int32)
  | _, 0 => pure []
  | slot, count + 1 => do
    let v ← valueAt slot
    let rest ← valuesFrom (slot + 1) count
    pure (v :: rest)

/-- Shows the text as a screen message. -/
def endHudMessage (bold : Bool) : Exec ω Unit := do
  let ctx ← read
  let depth ← depth
  let mark := match (← getInst).hudMark with
    | some mark => min mark.toNat depth
    | none => depth
  modifyInst ({ · with hudMark := none })
  if mark < 6 then
    throw .stackUnderflow
  let extra ← valuesFrom (ctx.base + mark) (depth - mark)
  truncate mark
  let v ← popMany 6
  let target ← printTarget bold
  let text ← takePrint
  act (.hudMessage target
    ⟨text, v.nth 0, v.nth 1, v.nth 2, v.nth 3, v.nth 4, v.nth 5, extra, bold⟩)

end LevelScript.Exec
