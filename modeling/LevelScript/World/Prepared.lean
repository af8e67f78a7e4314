import LevelScript.World.Host

/-!
# Prepared worlds

A world whose answers are written down beforehand in tables, for trying scripts out. It keeps a
list of the calls that change something, and of those that try a lock.
-/

namespace LevelScript

structure PreparedActor where
  actor : Actor
  name : Option String
  health : Int32
  armor : Int32
  frags : Int32
  tid : Int32
  /-- How many it has of each item. -/
  inventory : List (String × Int32)
  deriving DecidableEq, Repr, Inhabited

structure PreparedWorld where
  busyTags : List Int32 := []
  busyPolys : List Int32 := []
  dead : List Actor := []
  /-- The body of each player, for players in the game. -/
  players : List (Option Actor) := []
  playerNames : List (Option String) := []
  actors : List PreparedActor := []
  /-- Where the first actor with a tag is. -/
  positions : List (Int32 × Position) := []
  /-- Counts of things by kind and tag. -/
  things : List ((Int32 × Int32) × Int32) := []
  gameType : Int32 := 0
  skill : Int32 := 0
  time : Int32 := 0
  isNetwork : Bool := false
  /-- Locks that nobody can open. -/
  locked : List Int32 := []
  /-- Random numbers still to come. -/
  random : List Int32 := []
  /-- Results of specials. -/
  specials : List (Int32 × Int32) := []
  /-- How many things a spawn creates. -/
  spawned : Int32 := 0
  texts : List (String × String) := []
  /-- Calls so far. -/
  calls : Array Call := #[]
  deriving Repr, Inhabited

namespace PreparedWorld

def actor? (w : PreparedWorld) (a : Actor) : Option PreparedActor :=
  w.actors.find? (·.actor == a)

/-- A number of a listed actor, or zero. -/
def ofActor (w : PreparedWorld) (a : Actor) (f : PreparedActor → Int32) : Int32 :=
  ((w.actor? a).map f).getD 0

/-- What a listed player or name is. -/
def listed? {α : Type} (entries : List (Option α)) (player : UInt8) : Option α :=
  (entries[player.toNat]?).join

def playerNumber (w : PreparedWorld) (a : Actor) : Option UInt8 :=
  (w.players.findIdx? (· == some a)).map Nat.toUInt8

/-- The reply to a call. -/
def reply (w : PreparedWorld) : (c : Call) → c.Reply
  | .actorAlive a => !w.dead.contains a
  | .sectorBusy tag => w.busyTags.contains tag
  | .polyobjBusy id => w.busyPolys.contains id
  | .random least _ => w.random.headD least
  | .playerNumber a => w.playerNumber a
  | .playerActor p => listed? w.players p
  | .playerInGame p => (listed? w.players p).isSome
  | .playerCount => Int32.ofNat (w.players.countP Option.isSome)
  | .playerName p => listed? w.playerNames p
  | .actorName a => (w.actor? a).bind (·.name)
  | .playerHealth a => w.ofActor a (·.health)
  | .playerArmor a => w.ofActor a (·.armor)
  | .playerFrags a => w.ofActor a (·.frags)
  | .actorTid a => w.ofActor a (·.tid)
  | .actorPosition tid => (w.positions.lookup tid).getD ⟨0, 0, 0⟩
  | .thingCount kind tid => (w.things.lookup (kind, tid)).getD 0
  | .inventoryCount a item => w.ofActor a fun r => (r.inventory.lookup item).getD 0
  | .gameType => w.gameType
  | .gameSkill => w.skill
  | .levelTime => w.time
  | .isNetworkGame => w.isNetwork
  | .checkLock _ lock => !w.locked.contains lock
  | .localize key => (w.texts.lookup key).getD key
  | .perform (.lineSpecial special ..) => (w.specials.lookup special).getD 1
  | .perform (.spawn ..) => w.spawned
  | .perform (.spawnSpot ..) => w.spawned
  | c => c.usual

/-- Whether a call is kept in the list. -/
def keeps : Call → Bool
  | .checkLock .. => true
  | c => !c.isQuery

/-- The world after a call. -/
def after (w : PreparedWorld) (c : Call) : PreparedWorld :=
  let random := match c with
    | .random .. => w.random.tail
    | _ => w.random
  { w with random := random, calls := if keeps c then w.calls.push c else w.calls }

instance : Host PreparedWorld where
  answer c w := (w.reply c, w.after c)
  remarks _ := []

end PreparedWorld

end LevelScript
