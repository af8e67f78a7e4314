import LevelScript.Machine.Basic

/-!
# Line specials

A special is an action of the map with five arguments. Five of them control other scripts and
become requests; all others are effects on the world.
-/

namespace LevelScript.Exec

variable {ω : Type} [Host ω]

/-- What a special is for. -/
inductive SpecialKind where
  | execute (always : Bool)
  | lockedExecute
  | suspend
  | terminate
  | world

def SpecialKind.ofNumber (special : Int32) : SpecialKind :=
  if special == 80 then .execute false
  else if special == 81 then .suspend
  else if special == 82 then .terminate
  else if special == 83 then .lockedExecute
  else if special == 226 then .execute true
  else .world

/-- Runs a special and gives its result. -/
def special (number : Int32) (args : SpecialArgs) : Exec ω Int32 := do
  let inst ← getInst
  match SpecialKind.ofNumber number with
  | .execute always =>
    raise (.execute args.a₁ args.a₀ ⟨args.a₂, args.a₃, args.a₄⟩ always inst.activator inst.line
      inst.side)
    pure 1
  | .lockedExecute =>
    let actor ← activator
    if ← ask (.checkLock actor args.a₄) then
      raise (.execute args.a₁ args.a₀ ⟨args.a₂, args.a₃, 0⟩ false inst.activator inst.line
        inst.side)
      pure 1
    else pure 0
  | .suspend =>
    raise (.suspend args.a₁ args.a₀)
    pure 1
  | .terminate =>
    raise (.terminate args.a₁ args.a₀)
    pure 1
  | .world =>
    let actor ← activator
    perform (.lineSpecial number args actor inst.line inst.side)

end LevelScript.Exec
