import LevelScript.Machine.Calls
import LevelScript.Machine.Control
import LevelScript.Machine.Effects
import LevelScript.Machine.Queries

/-!
# Steps

One step reads the number at the instance's offset and executes the opcode that it stands for,
which reads its operands as it goes. A number that is no opcode is noted and skipped.
-/

namespace LevelScript.Exec

variable {ω : Type} [Host ω]

/-- Executes an opcode. The offset is behind its number, and moves behind each operand as it is
read. -/
def execute (op : Opcode) : Exec ω Unit := do
  match op with
  | .nop => pure ()
  | .terminate => setStatus .pleaseRemove
  | .suspend => setStatus .suspended
  | .restart => restart
  | .pushNumber => push (← word)
  | .pushBytes count => pushRaw count.toNat
  | .pushByteList => pushRaw (← raw).toUInt32.toNat
  | .drop => do let _ ← pop
  | .dup => push (← peek)
  | .swap => swap
  | .binary op => binary op
  | .division op => division op
  | .negateLogical => push (flag ((← pop) == 0))
  | .unaryMinus => push (-(← pop))
  | .sin => push (Angle.sin (← pop))
  | .cos => push (Angle.cos (← pop))
  | .vectorAngle => vectorAngle
  | .pushVar scope => push (← loadVar scope (← index))
  | .updateVar update scope => updateVar update scope (← index)
  | .pushArray scope => push (← loadElement scope (← index) (← pop))
  | .updateArray update scope => updateElement update scope (← index)
  | .goto => jump (← word).toUInt32
  | .branch whenTrue => branch whenTrue (← word).toUInt32
  | .caseGoto =>
    let v ← many word 2
    caseGoto (v.nth 0) (v.nth 1).toUInt32
  | .caseGotoSorted => caseGotoSorted
  | .call discard => call (← index) discard
  | .returnVoid => ret 0
  | .returnVal => ret (← pop)
  | .delay source => delay (← argument source)
  | .tagWait direct => setStatus (.tagWait (← argument (.ofDirect direct)))
  | .polyWait direct => setStatus (.polyWait (← argument (.ofDirect direct)))
  | .scriptWait direct => setStatus (.scriptWaitPre (← argument (.ofDirect direct)))
  | .special argc source => do let _ ← specialFrom source argc.toNat
  | .specialResult => keepResult (← specialFrom .stack 5)
  | .random source => pushRandom (← arguments 2 source)
  | .thingCount direct => thingCount (← arguments 2 (.ofDirect direct))
  | .lineSide => push (← getInst).side.toInt
  | .playerCount => push (← ask .playerCount)
  | .gameType => push (← ask .gameType)
  | .gameSkill => push (← ask .gameSkill)
  | .timer => push (← ask .levelTime)
  | .isNetworkGame => push (flag (← ask .isNetworkGame))
  | .singlePlayer => push (flag (!(← ask .isNetworkGame)))
  | .playerHealth => pushOfActivator fun a => ask (.playerHealth a)
  | .playerArmorPoints => pushOfActivator fun a => ask (.playerArmor a)
  | .playerFrags => pushOfActivator fun a => ask (.playerFrags a)
  | .activatorTid => pushOfActivator fun a => ask (.actorTid a)
  | .playerNumber => pushPlayerNumber
  | .playerInGame => pushPlayerInGame
  | .actorPosition axis => pushPosition axis
  | .checkInventory direct => checkInventory (← argument (.ofDirect direct))
  | .strLen => pushTextLength
  | .changeFlat surface direct => changeFlat surface (← arguments 2 (.ofDirect direct))
  | .clearLineSpecial => clearLineSpecial
  | .setLineTexture => setLineTexture
  | .setLineBlocking kind => setLineBlocking kind
  | .setLineSpecial => setLineSpecial
  | .setGravity direct => act (.setGravity (← argument (.ofDirect direct)))
  | .setAirControl direct => act (.setAirControl (← argument (.ofDirect direct)))
  | .clearInventory => clearInventory
  | .giveInventory direct => inventory .giveInventory (← arguments 2 (.ofDirect direct))
  | .takeInventory direct => inventory .takeInventory (← arguments 2 (.ofDirect direct))
  | .spawn direct => spawn (← arguments 6 (.ofDirect direct))
  | .spawnSpot direct => spawnSpot (← arguments 4 (.ofDirect direct))
  | .beginPrint => modifyInst ({ · with print := "" })
  | .printString => append (← text (← pop))
  | .printLocalized =>
    let key ← text (← pop)
    append (← ask (.localize key))
  | .printNumber => append (toString (← pop).toInt)
  | .printCharacter => append (characterText (← pop))
  | .printFixed => append (Text.fixedPoint (← pop))
  | .printName => append (← nameText (← pop))
  | .endPrint bold => endPrint bold
  | .moreHudMessage => modifyInst ({ · with hudMark := none })
  | .optHudMessage =>
    let mark ← depth
    modifyInst ({ · with hudMark := some mark.toUInt32 })
  | .endHudMessage bold => endHudMessage bold
  | .setFont direct => setFont (← argument (.ofDirect direct))
  | .sectorSound => sound do pure (.sector (← getInst).line)
  | .ambientSound => sound (pure .ambient)
  | .localAmbientSound => sound do pure (.localAmbient (← activator))
  | .activatorSound => sound do pure (.actor (← activator))
  | .thingSound => thingSound
  | .soundSequence => soundSequence
  | .musicChange => musicChange
  | .setMusic direct => setMusic (pure none) (← arguments 3 (.ofDirect direct))
  | .localSetMusic direct => setMusic playerTarget (← arguments 3 (.ofDirect direct))
  | .fadeTo => fadeTo
  | .fadeRange => fadeRange
  | .cancelFade => cancelFade

/-- Executes the next instruction. -/
def step : Exec ω Unit := do
  let inst ← getInst
  let number ← fetch
  match Opcode.ofNumber? number with
  | none => note (.unknownOpcode inst.number number inst.pc)
  | some op =>
    note (.executing inst.number inst.pc op)
    execute op

end LevelScript.Exec
