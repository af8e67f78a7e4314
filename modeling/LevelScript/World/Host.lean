import LevelScript.Journal

/-!
# Hosts

A host is the game around the scripts: a state `ω` and its answers to calls. Some calls ask for
something, `perform` makes a change, and `broadcast` sends a change already made to the others.
Every call gives a reply and the host's next state.

* `Call.usual` is the reply of a world in which nobody lives, for calls a host has no answer of
  its own to.
-/

namespace LevelScript

/-- What can be asked of a host. -/
inductive Call where
  | actorAlive (actor : Actor)
  /-- Whether a floor or ceiling of a sector with the tag still moves. -/
  | sectorBusy (tag : Int32)
  | polyobjBusy (id : Int32)
  /-- A number from the game's generator, in the range given. -/
  | random (least greatest : Int32)
  | playerNumber (actor : Actor)
  /-- The body a player has now. -/
  | playerActor (player : UInt8)
  | playerInGame (player : UInt8)
  | playerCount
  | playerName (player : UInt8)
  | actorName (actor : Actor)
  | playerHealth (actor : Actor)
  | playerArmor (actor : Actor)
  | playerFrags (actor : Actor)
  | actorTid (actor : Actor)
  /-- Where the first actor with the tag is. -/
  | actorPosition (tid : Int32)
  | thingCount (kind tid : Int32)
  | inventoryCount (actor : Actor) (item : String)
  | gameType
  | gameSkill
  | levelTime
  | isNetworkGame
  /-- Whether an actor may open a lock. -/
  | checkLock (actor : Option Actor) (lock : Int32)
  /-- The text of a localization key. -/
  | localize (key : String)
  | perform (effect : Effect)
  | broadcast (effect : Effect)
  deriving DecidableEq, Repr, Inhabited

namespace Call

/-- What a call gives back. -/
@[reducible] def Reply : Call → Type
  | actorAlive _ | sectorBusy _ | polyobjBusy _ | playerInGame _ | isNetworkGame
  | checkLock _ _ => Bool
  | playerNumber _ => Option UInt8
  | playerActor _ => Option Actor
  | playerName _ | actorName _ => Option String
  | actorPosition _ => Position
  | localize _ => String
  | broadcast _ => Unit
  | random _ _ | playerCount | playerHealth _ | playerArmor _ | playerFrags _ | actorTid _
  | thingCount _ _ | inventoryCount _ _ | gameType | gameSkill | levelTime | perform _ => Int32

/-- Whether the call leaves the world as it is. -/
def isQuery : Call → Bool
  | random _ _ | perform _ | broadcast _ => false
  | _ => true

/-- The reply of a world in which nobody lives. -/
def usual : (c : Call) → c.Reply
  | actorAlive _ => false
  | sectorBusy _ => false
  | polyobjBusy _ => false
  | random least _ => least
  | playerNumber _ => none
  | playerActor _ => none
  | playerInGame _ => false
  | playerCount => 0
  | playerName _ => none
  | actorName _ => none
  | playerHealth _ => 0
  | playerArmor _ => 0
  | playerFrags _ => 0
  | actorTid _ => 0
  | actorPosition _ => ⟨0, 0, 0⟩
  | thingCount _ _ => 0
  | inventoryCount _ _ => 0
  | gameType => 0
  | gameSkill => 2
  | levelTime => 0
  | isNetworkGame => false
  | checkLock _ _ => true
  | localize key => key
  | perform _ => 0
  | broadcast _ => ()

end Call

/-- A game around the scripts, with states in `ω`. -/
class Host (ω : Type) where
  answer : (c : Call) → ω → c.Reply × ω
  /-- What the host itself reports about a call. -/
  remarks : Call → List Diagnostic

/-- Performs an effect that was sent here; gives its result, or zero if it has none. -/
def Effect.apply {ω : Type} [Host ω] (e : Effect) (w : ω) : Int32 × ω :=
  let (result, w) := Host.answer (.perform e) w
  (if e.hasResult then result else 0, w)

/-! ## A host that keeps no state -/

/-- The least a game can be: every actor is alive, nothing moves, a special gives its own number
and a random number is the greatest one allowed. -/
structure StillWorld where
  deriving DecidableEq, Repr, Inhabited

def StillWorld.reply : (c : Call) → c.Reply
  | .actorAlive _ => true
  | .random _ greatest => greatest
  | .perform (.lineSpecial special ..) => special
  | c => c.usual

instance : Host StillWorld where
  answer c w := (StillWorld.reply c, w)
  remarks _ := []

end LevelScript
