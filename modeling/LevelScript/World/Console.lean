import LevelScript.World.Host

/-!
# The console world

A world for dry runs. It writes down what scripts print and reports everything else; nobody
lives in it, and tags that were named beforehand stay busy.
-/

namespace LevelScript

structure ConsoleWorld where
  busyTags : List Int32
  /-- The state of the generator of random numbers. -/
  seed : UInt32
  /-- How many effects were sent. -/
  effects : Nat := 0
  /-- What was printed, with line ends. -/
  output : String := ""
  deriving DecidableEq, Repr, Inhabited

namespace ConsoleWorld

/-- The next state of the generator, which is never zero. -/
def nextSeed (seed : UInt32) : UInt32 :=
  let x := max seed 1
  let x := x ^^^ (x <<< 13)
  let x := x ^^^ (x >>> 17)
  x ^^^ (x <<< 5)

/-- A number in a range; the least one if the range is empty. -/
def inRange (x : UInt32) (least greatest : Int32) : Int32 :=
  if greatest ≤ least then least
  else
    let span := greatest.toInt - least.toInt + 1
    Int32.ofInt (least.toInt + x.toNat % span)

/-- A printed line: a mark before bold text, the target before text for one actor. -/
def printed (target : Option Actor) (text : String) (bold : Bool) : String :=
  if bold then s!"** {text}\n"
  else
    match target with
    | some a => s!"[{a.index}:{a.generation}] {text}\n"
    | none => s!"{text}\n"

def reply (w : ConsoleWorld) : (c : Call) → c.Reply
  | .sectorBusy tag => w.busyTags.contains tag
  | .random least greatest => inRange (nextSeed w.seed) least greatest
  | .perform (.lineSpecial ..) => (1 : Int32)
  | c => c.usual

def after (w : ConsoleWorld) : Call → ConsoleWorld
  | .random .. => { w with seed := nextSeed w.seed }
  | .perform (.print target text bold) => { w with output := w.output ++ printed target text bold }
  | .broadcast _ => { w with effects := w.effects + 1 }
  | _ => w

instance : Host ConsoleWorld where
  answer c w := (w.reply c, w.after c)
  remarks
    | .perform (.lineSpecial special args _ line side) => [.specialRun special args line side]
    | .broadcast e => [.performed e]
    | _ => []

end ConsoleWorld

end LevelScript
