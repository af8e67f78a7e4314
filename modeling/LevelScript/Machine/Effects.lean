import LevelScript.Machine.Specials

/-!
# Instructions that change the world

Each takes its values from the stack or from the code and performs one effect. The first value
of most is the index of a text.
-/

namespace LevelScript.Exec

variable {ω : Type} [Host ω]

/-! ## Specials -/

/-- Reads the number of a special, which is a byte where its arguments are bytes. -/
def specialNumber (source : Source) : Exec ω Int32 := do
  match source with
  | .bytes => raw
  | _ => pure (← index).toInt32

/-- Runs the special whose number is the next operand. -/
def specialFrom (source : Source) (argc : Nat) : Exec ω Int32 := do
  let number ← specialNumber source
  let args ← arguments argc source
  special number (.ofList args.toList)

/-- Keeps the result of a special and pushes it. -/
def keepResult (result : Int32) : Exec ω Unit := do
  modifyInst ({ · with result := result })
  push result

/-! ## Lines and sectors -/

def changeFlat (surface : Surface) (v : Values 2) : Exec ω Unit := do
  act (.changeFlat (v.nth 0) (← text (v.nth 1)) surface)

def clearLineSpecial : Exec ω Unit := do
  match (← getInst).line with
  | some l => act (.clearLineSpecial l)
  | none => pure ()

def setLineTexture : Exec ω Unit := do
  let v ← popMany 4
  act (.setLineTexture (v.nth 0) (.ofInt (v.nth 1)) (v.nth 2) (← text (v.nth 3)))

def setLineBlocking (kind : Blocking) : Exec ω Unit := do
  let v ← popMany 2
  act (.setLineBlocking (v.nth 0) kind (v.nth 1 != 0))

def setLineSpecial : Exec ω Unit := do
  let v ← popMany 7
  act (.setLineSpecial (v.nth 0) (v.nth 1) ⟨v.nth 2, v.nth 3, v.nth 4, v.nth 5, v.nth 6⟩)

/-! ## Actors -/

def clearInventory : Exec ω Unit := do
  act (.clearInventory (← activator))

/-- Gives or takes an item: the effect is made of the target, the item and the amount. -/
def inventory (effect : Option Actor → String → Int32 → Effect) (v : Values 2) :
    Exec ω Unit := do
  let target ← activator
  act (effect target (← text (v.nth 0)) (v.nth 1))

def spawn (v : Values 6) : Exec ω Unit := do
  let kind ← text (v.nth 0)
  push (← perform (.spawn kind ⟨v.nth 1, v.nth 2, v.nth 3⟩ (v.nth 4) (v.nth 5)))

def spawnSpot (v : Values 4) : Exec ω Unit := do
  let kind ← text (v.nth 0)
  push (← perform (.spawnSpot kind (v.nth 1) (v.nth 2) (v.nth 3)))

/-! ## Sound, music and the screen -/

/-- Plays a sound from a source that may depend on the instance. -/
def sound (source : Exec ω SoundSource) : Exec ω Unit := do
  let v ← popMany 2
  let source ← source
  act (.sound source (← text (v.nth 0)) (v.nth 1))

def thingSound : Exec ω Unit := do
  let v ← popMany 3
  act (.sound (.thing (v.nth 0)) (← text (v.nth 1)) (v.nth 2))

def soundSequence : Exec ω Unit := do
  let name ← text (← pop)
  act (.soundSequence (← getInst).line name)

def setFont (name : Int32) : Exec ω Unit := do
  act (.setFont (← text name))

def musicChange : Exec ω Unit := do
  let v ← popMany 2
  act (.music none (← text (v.nth 0)) (v.nth 1))

/-- Changes the music for a target. The third value is not used. -/
def setMusic (target : Exec ω (Option Actor)) (v : Values 3) : Exec ω Unit := do
  let target ← target
  act (.music target (← text (v.nth 0)) (v.nth 1))

def fadeTo : Exec ω Unit := do
  let v ← popMany 5
  act (.fade (← playerTarget) (.to ⟨v.nth 0, v.nth 1, v.nth 2, v.nth 3⟩ (v.nth 4)))

def fadeRange : Exec ω Unit := do
  let v ← popMany 9
  act (.fade (← playerTarget)
    (.range ⟨v.nth 0, v.nth 1, v.nth 2, v.nth 3⟩ ⟨v.nth 4, v.nth 5, v.nth 6, v.nth 7⟩ (v.nth 8)))

def cancelFade : Exec ω Unit := do
  act (.fade (← playerTarget) .cancel)

end LevelScript.Exec
