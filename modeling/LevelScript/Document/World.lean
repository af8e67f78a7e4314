import LevelScript.Document.Basic
import LevelScript.World.Effect

/-!
# Documents of the world

Actors, lines and effects as documents.
-/

namespace LevelScript

open Document (tagged)

/-! ## Things -/

instance : Documented Actor where
  toDocument a := .record [("index", toDocument a.index), ("generation", toDocument a.generation)]
  ofDocument? d := return ⟨← d.get? "index", ← d.get? "generation"⟩

instance : Documented Line where
  toDocument l := toDocument l.number
  ofDocument? d := (ofDocument? d).map Line.mk

instance : Documented Side where
  toDocument s := .text (Describe.side s)
  ofDocument? := Document.named? Describe.side [.front, .back]

instance : Documented Surface where
  toDocument s := .text (Describe.surface s)
  ofDocument? := Document.named? Describe.surface [.floor, .ceiling]

instance : Documented Blocking where
  toDocument b := .text (Describe.blocking b)
  ofDocument? := Document.named? Describe.blocking [.all, .monsters]

instance : Documented Position where
  toDocument p := toDocument [p.x, p.y, p.z]
  ofDocument? d := do
    let [x, y, z] ← (ofDocument? d : Option (List Int32)) | none
    some ⟨x, y, z⟩

instance : Documented Color where
  toDocument c := toDocument [c.red, c.green, c.blue, c.alpha]
  ofDocument? d := do
    let [r, g, b, a] ← (ofDocument? d : Option (List Int32)) | none
    some ⟨r, g, b, a⟩

instance : Documented SpecialArgs where
  toDocument a := toDocument a.toList
  ofDocument? d := do
    let [a, b, c, d, e] ← (ofDocument? d : Option (List Int32)) | none
    some ⟨a, b, c, d, e⟩

instance : Documented ScriptArgs where
  toDocument a := toDocument a.toList
  ofDocument? d := do
    let [a, b, c] ← (ofDocument? d : Option (List Int32)) | none
    some ⟨a, b, c⟩

/-! ## Parts of effects -/

instance : Documented SoundSource where
  toDocument
    | .sector line => tagged "Sector" (toDocument line)
    | .ambient => .text "Ambient"
    | .localAmbient player => tagged "LocalAmbient" (toDocument player)
    | .thing tid => tagged "Thing" (toDocument tid)
    | .actor actor => tagged "Actor" (toDocument actor)
  ofDocument? d := do
    match ← d.case? with
    | ("Sector", d) => return .sector (← ofDocument? d)
    | ("Ambient", _) => return .ambient
    | ("LocalAmbient", d) => return .localAmbient (← ofDocument? d)
    | ("Thing", d) => return .thing (← ofDocument? d)
    | ("Actor", d) => return .actor (← ofDocument? d)
    | _ => none

instance : Documented HudMessage where
  toDocument m := .record [("text", toDocument m.text), ("kind", toDocument m.kind),
    ("id", toDocument m.id), ("color", toDocument m.color), ("x", toDocument m.x),
    ("y", toDocument m.y), ("hold", toDocument m.hold), ("extra", toDocument m.extra),
    ("bold", toDocument m.bold)]
  ofDocument? d := return ⟨← d.get? "text", ← d.get? "kind", ← d.get? "id", ← d.get? "color",
    ← d.get? "x", ← d.get? "y", ← d.get? "hold", ← d.get? "extra", ← d.get? "bold"⟩

instance : Documented Fade where
  toDocument
    | .cancel => .text "Cancel"
    | .to color time =>
      tagged "To" (.record [("rgba", toDocument color), ("time", toDocument time)])
    | .range start stop time => tagged "Range" (.record
      [("from", toDocument start), ("to", toDocument stop), ("time", toDocument time)])
  ofDocument? d := do
    match ← d.case? with
    | ("Cancel", _) => return .cancel
    | ("To", d) => return .to (← d.get? "rgba") (← d.get? "time")
    | ("Range", d) => return .range (← d.get? "from") (← d.get? "to") (← d.get? "time")
    | _ => none

/-! ## Effects -/

/-- The name of an effect, and its parts in order. -/
def Effect.parts : Effect → String × List (String × Document)
  | .lineSpecial special args activator line side => ("LineSpecial",
      [("special", toDocument special), ("args", toDocument args),
        ("activator", toDocument activator), ("line", toDocument line),
        ("side", toDocument side)])
  | .changeFlat tag texture surface => ("ChangeFlat", [("tag", toDocument tag),
      ("texture", toDocument texture), ("surface", toDocument surface)])
  | .clearLineSpecial line => ("ClearLineSpecial", [("line", toDocument line)])
  | .setLineTexture lineId side position texture => ("SetLineTexture",
      [("line_id", toDocument lineId), ("side", toDocument side),
        ("position", toDocument position), ("texture", toDocument texture)])
  | .setLineBlocking lineId kind enabled => ("SetLineBlocking",
      [("line_id", toDocument lineId), ("kind", toDocument kind),
        ("enabled", toDocument enabled)])
  | .setLineSpecial lineId special args => ("SetLineSpecial",
      [("line_id", toDocument lineId), ("special", toDocument special),
        ("args", toDocument args)])
  | .setGravity value => ("SetGravity", [("value", toDocument value)])
  | .setAirControl value => ("SetAirControl", [("value", toDocument value)])
  | .clearInventory target => ("ClearInventory", [("target", toDocument target)])
  | .giveInventory target item amount => ("GiveInventory", [("target", toDocument target),
      ("item", toDocument item), ("amount", toDocument amount)])
  | .takeInventory target item amount => ("TakeInventory", [("target", toDocument target),
      ("item", toDocument item), ("amount", toDocument amount)])
  | .spawn kind position tid angle => ("Spawn", [("kind", toDocument kind),
      ("position", toDocument position), ("tid", toDocument tid), ("angle", toDocument angle)])
  | .spawnSpot kind spot tid angle => ("SpawnSpot", [("kind", toDocument kind),
      ("spot", toDocument spot), ("tid", toDocument tid), ("angle", toDocument angle)])
  | .print target text bold => ("Print", [("target", toDocument target),
      ("text", toDocument text), ("bold", toDocument bold)])
  | .hudMessage target message => ("HudMessage", [("target", toDocument target),
      ("message", toDocument message)])
  | .setFont name => ("SetFont", [("name", toDocument name)])
  | .music target name order => ("Music", [("target", toDocument target),
      ("name", toDocument name), ("order", toDocument order)])
  | .sound source name volume => ("Sound", [("source", toDocument source),
      ("name", toDocument name), ("volume", toDocument volume)])
  | .soundSequence line name => ("SoundSequence", [("line", toDocument line),
      ("name", toDocument name)])
  | .fade target change => ("Fade", [("target", toDocument target), ("fade", toDocument change)])

/-- Reads an effect from its name and its parts. -/
def Effect.ofParts? (name : String) (d : Document) : Option Effect := do
  match name with
  | "LineSpecial" =>
    return .lineSpecial (← d.get? "special") (← d.get? "args") (← d.get? "activator")
      (← d.get? "line") (← d.get? "side")
  | "ChangeFlat" => return .changeFlat (← d.get? "tag") (← d.get? "texture") (← d.get? "surface")
  | "ClearLineSpecial" => return .clearLineSpecial (← d.get? "line")
  | "SetLineTexture" =>
    return .setLineTexture (← d.get? "line_id") (← d.get? "side") (← d.get? "position")
      (← d.get? "texture")
  | "SetLineBlocking" =>
    return .setLineBlocking (← d.get? "line_id") (← d.get? "kind") (← d.get? "enabled")
  | "SetLineSpecial" =>
    return .setLineSpecial (← d.get? "line_id") (← d.get? "special") (← d.get? "args")
  | "SetGravity" => return .setGravity (← d.get? "value")
  | "SetAirControl" => return .setAirControl (← d.get? "value")
  | "ClearInventory" => return .clearInventory (← d.get? "target")
  | "GiveInventory" =>
    return .giveInventory (← d.get? "target") (← d.get? "item") (← d.get? "amount")
  | "TakeInventory" =>
    return .takeInventory (← d.get? "target") (← d.get? "item") (← d.get? "amount")
  | "Spawn" =>
    return .spawn (← d.get? "kind") (← d.get? "position") (← d.get? "tid") (← d.get? "angle")
  | "SpawnSpot" =>
    return .spawnSpot (← d.get? "kind") (← d.get? "spot") (← d.get? "tid") (← d.get? "angle")
  | "Print" => return .print (← d.get? "target") (← d.get? "text") (← d.get? "bold")
  | "HudMessage" => return .hudMessage (← d.get? "target") (← d.get? "message")
  | "SetFont" => return .setFont (← d.get? "name")
  | "Music" => return .music (← d.get? "target") (← d.get? "name") (← d.get? "order")
  | "Sound" => return .sound (← d.get? "source") (← d.get? "name") (← d.get? "volume")
  | "SoundSequence" => return .soundSequence (← d.get? "line") (← d.get? "name")
  | "Fade" => return .fade (← d.get? "target") (← d.get? "fade")
  | _ => none

instance : Documented Effect where
  toDocument e := tagged e.parts.1 (.record e.parts.2)
  ofDocument? d := d.case?.bind fun (name, parts) => Effect.ofParts? name parts

end LevelScript
