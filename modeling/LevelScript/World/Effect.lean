import LevelScript.Text.Display
import LevelScript.World.Basic

/-!
# Effects

Everything a script does to the world or shows to players is one `Effect`: a record that can be
performed here and sent to others, who perform it too.

* `Effect.hasResult` says which effects give a number back to the script.
* `Effect.describe` is the record as it stands in a log.
-/

namespace LevelScript

/-- Where a sound comes from. -/
inductive SoundSource where
  /-- The sector in front of a line, or the whole level. -/
  | sector (line : Option Line)
  /-- Everywhere, for everyone. -/
  | ambient
  /-- Everywhere, for one player. -/
  | localAmbient (player : Option Actor)
  /-- Every actor with this tag. -/
  | thing (tid : Int32)
  | actor (actor : Option Actor)
  deriving DecidableEq, Repr, Inhabited

/-- A text placed on the screen. Positions and times are fixed-point numbers. -/
structure HudMessage where
  text : String
  kind : Int32
  id : Int32
  color : Int32
  x : Int32
  y : Int32
  hold : Int32
  /-- Further numbers that only some kinds use. -/
  extra : List Int32
  bold : Bool
  deriving DecidableEq, Repr, Inhabited

structure Color where
  red : Int32
  green : Int32
  blue : Int32
  alpha : Int32
  deriving DecidableEq, Repr, Inhabited

/-- A change of the screen's tint. -/
inductive Fade where
  | cancel
  | to (color : Color) (time : Int32)
  | range (start stop : Color) (time : Int32)
  deriving DecidableEq, Repr, Inhabited

/-- One change a script makes. A missing target stands for everyone. -/
inductive Effect where
  | lineSpecial (special : Int32) (args : SpecialArgs) (activator : Option Actor)
      (line : Option Line) (side : Side)
  | changeFlat (tag : Int32) (texture : String) (surface : Surface)
  | clearLineSpecial (line : Line)
  | setLineTexture (lineId : Int32) (side : Side) (position : Int32) (texture : String)
  | setLineBlocking (lineId : Int32) (kind : Blocking) (enabled : Bool)
  | setLineSpecial (lineId special : Int32) (args : SpecialArgs)
  | setGravity (value : Int32)
  | setAirControl (value : Int32)
  | clearInventory (target : Option Actor)
  | giveInventory (target : Option Actor) (item : String) (amount : Int32)
  | takeInventory (target : Option Actor) (item : String) (amount : Int32)
  | spawn (kind : String) (position : Position) (tid angle : Int32)
  | spawnSpot (kind : String) (spot tid angle : Int32)
  | print (target : Option Actor) (text : String) (bold : Bool)
  | hudMessage (target : Option Actor) (message : HudMessage)
  | setFont (name : String)
  | music (target : Option Actor) (name : String) (order : Int32)
  | sound (source : SoundSource) (name : String) (volume : Int32)
  | soundSequence (line : Option Line) (name : String)
  | fade (target : Option Actor) (fade : Fade)
  deriving DecidableEq, Repr, Inhabited

/-- Whether performing the effect gives a number back. -/
def Effect.hasResult : Effect → Bool
  | .lineSpecial .. | .spawn .. | .spawnSpot .. => true
  | _ => false

/-! ## Effects in a log -/

namespace Describe

/-- A record: its name, and its fields with their values. -/
def record (name : String) (fields : List (String × String)) : String :=
  name ++ " \x7b " ++ ", ".intercalate (fields.map fun f => f.1 ++ ": " ++ f.2) ++ " \x7d"

def tagged (name value : String) : String := name ++ "(" ++ value ++ ")"

def int (v : Int32) : String := toString v.toInt

def bool (b : Bool) : String := if b then "true" else "false"

def list (items : List String) : String := "[" ++ ", ".intercalate items ++ "]"

def optional (value : Option String) : String :=
  match value with
  | some v => tagged "Some" v
  | none => "None"

def actor (a : Actor) : String :=
  record "ActorHandle" [("index", toString a.index), ("generation", toString a.generation)]

def actor? (a : Option Actor) : String := optional (a.map actor)

def line (l : Line) : String := tagged "LineId" (toString l.number)

def line? (l : Option Line) : String := optional (l.map line)

def side : Side → String
  | .front => "Front"
  | .back => "Back"

def surface : Surface → String
  | .floor => "Floor"
  | .ceiling => "Ceiling"

def blocking : Blocking → String
  | .all => "All"
  | .monsters => "Monsters"

def args (a : SpecialArgs) : String := list (a.toList.map int)

def position (p : Position) : String := list [int p.x, int p.y, int p.z]

def color (c : Color) : String := list [int c.red, int c.green, int c.blue, int c.alpha]

def soundSource : SoundSource → String
  | .sector l => tagged "Sector" (line? l)
  | .ambient => "Ambient"
  | .localAmbient a => tagged "LocalAmbient" (actor? a)
  | .thing tid => tagged "Thing" (int tid)
  | .actor a => tagged "Actor" (actor? a)

def hudMessage (m : HudMessage) : String :=
  record "HudMessage" [("text", Text.quoted m.text), ("kind", int m.kind), ("id", int m.id),
    ("color", int m.color), ("x", int m.x), ("y", int m.y), ("hold", int m.hold),
    ("extra", list (m.extra.map int)), ("bold", bool m.bold)]

def fade : Fade → String
  | .cancel => "Cancel"
  | .to c time => record "To" [("rgba", color c), ("time", int time)]
  | .range start stop time =>
    record "Range" [("from", color start), ("to", color stop), ("time", int time)]

end Describe

open Describe in
/-- The record of an effect as text. -/
def Effect.describe : Effect → String
  | .lineSpecial special a activator l s =>
    record "LineSpecial" [("special", int special), ("args", args a),
      ("activator", actor? activator), ("line", line? l), ("side", side s)]
  | .changeFlat tag texture s =>
    record "ChangeFlat" [("tag", int tag), ("texture", Text.quoted texture),
      ("surface", surface s)]
  | .clearLineSpecial l => record "ClearLineSpecial" [("line", line l)]
  | .setLineTexture lineId s position texture =>
    record "SetLineTexture" [("line_id", int lineId), ("side", side s),
      ("position", int position), ("texture", Text.quoted texture)]
  | .setLineBlocking lineId kind enabled =>
    record "SetLineBlocking" [("line_id", int lineId), ("kind", blocking kind),
      ("enabled", bool enabled)]
  | .setLineSpecial lineId special a =>
    record "SetLineSpecial" [("line_id", int lineId), ("special", int special), ("args", args a)]
  | .setGravity value => record "SetGravity" [("value", int value)]
  | .setAirControl value => record "SetAirControl" [("value", int value)]
  | .clearInventory target => record "ClearInventory" [("target", actor? target)]
  | .giveInventory target item amount =>
    record "GiveInventory" [("target", actor? target), ("item", Text.quoted item),
      ("amount", int amount)]
  | .takeInventory target item amount =>
    record "TakeInventory" [("target", actor? target), ("item", Text.quoted item),
      ("amount", int amount)]
  | .spawn kind p tid angle =>
    record "Spawn" [("kind", Text.quoted kind), ("position", position p), ("tid", int tid),
      ("angle", int angle)]
  | .spawnSpot kind spot tid angle =>
    record "SpawnSpot" [("kind", Text.quoted kind), ("spot", int spot), ("tid", int tid),
      ("angle", int angle)]
  | .print target text bold =>
    record "Print" [("target", actor? target), ("text", Text.quoted text),
      ("bold", Describe.bool bold)]
  | .hudMessage target message =>
    record "HudMessage" [("target", actor? target), ("message", Describe.hudMessage message)]
  | .setFont name => record "SetFont" [("name", Text.quoted name)]
  | .music target name order =>
    record "Music" [("target", actor? target), ("name", Text.quoted name), ("order", int order)]
  | .sound source name volume =>
    record "Sound" [("source", soundSource source), ("name", Text.quoted name),
      ("volume", int volume)]
  | .soundSequence l name =>
    record "SoundSequence" [("line", line? l), ("name", Text.quoted name)]
  | .fade target f => record "Fade" [("target", actor? target), ("fade", Describe.fade f)]

end LevelScript
