import LevelScript.Document.World
import LevelScript.Session.Deferred
import LevelScript.Snapshot.Basic

/-!
# Documents of levels

Requests, instances and snapshots as documents.
-/

namespace LevelScript

open Document (tagged)

/-! ## Requests -/

instance : Documented DeferredAction where
  toDocument a := .text a.title
  ofDocument? :=
    Document.named? DeferredAction.title [.execute, .executeAlways, .suspend, .terminate]

instance : Documented DeferredEntry where
  toDocument e := .record [("map", toDocument e.map), ("action", toDocument e.action),
    ("script", toDocument e.script), ("args", toDocument e.args), ("player", toDocument e.player)]
  ofDocument? d := return ⟨← d.get? "map", ← d.get? "action", ← d.get? "script", ← d.get? "args",
    ← d.get? "player"⟩

instance : Documented Request where
  toDocument
    | .execute map script args always activator line side => tagged "Execute" (.record
      [("map", toDocument map), ("script", toDocument script), ("args", toDocument args),
        ("always", toDocument always), ("activator", toDocument activator),
        ("line", toDocument line), ("side", toDocument side)])
    | .suspend map script =>
      tagged "Suspend" (.record [("map", toDocument map), ("script", toDocument script)])
    | .terminate map script =>
      tagged "Terminate" (.record [("map", toDocument map), ("script", toDocument script)])
  ofDocument? d := do
    match ← d.case? with
    | ("Execute", d) =>
      return .execute (← d.get? "map") (← d.get? "script") (← d.get? "args") (← d.get? "always")
        (← d.get? "activator") (← d.get? "line") (← d.get? "side")
    | ("Suspend", d) => return .suspend (← d.get? "map") (← d.get? "script")
    | ("Terminate", d) => return .terminate (← d.get? "map") (← d.get? "script")
    | _ => none

/-! ## Instances -/

instance : Documented Handle where
  toDocument h := .record [("index", .int h.index), ("generation", toDocument h.generation)]
  ofDocument? d := return ⟨← (d.field "index").natBelow? UInt32.size, ← d.get? "generation"⟩

instance : Documented Status where
  toDocument
    | .delayed ticks => tagged "Delayed" (toDocument ticks)
    | .tagWait tag => tagged "TagWait" (toDocument tag)
    | .polyWait id => tagged "PolyWait" (toDocument id)
    | .scriptWaitPre script => tagged "ScriptWaitPre" (toDocument script)
    | .scriptWait script => tagged "ScriptWait" (toDocument script)
    | s => .text s.title
  ofDocument? d := do
    match ← d.case? with
    | ("Delayed", d) => return .delayed (← ofDocument? d)
    | ("TagWait", d) => return .tagWait (← ofDocument? d)
    | ("PolyWait", d) => return .polyWait (← ofDocument? d)
    | ("ScriptWaitPre", d) => return .scriptWaitPre (← ofDocument? d)
    | ("ScriptWait", d) => return .scriptWait (← ofDocument? d)
    | _ =>
      d.named? Status.title [.running, .suspended, .pleaseRemove, .divideByZero, .modulusByZero]

instance : Documented Frame where
  toDocument
    | .script => .text "Script"
    | .stack base => tagged "Stack" (toDocument base)
  ofDocument? d := do
    match ← d.case? with
    | ("Script", _) => return .script
    | ("Stack", d) => return .stack (← ofDocument? d)
    | _ => none

instance : Documented ReturnRecord where
  toDocument r := .record [("return_pc", toDocument r.returnPc),
    ("caller_frame", toDocument r.callerFrame), ("caller_function", toDocument r.callerFunction),
    ("discard_result", toDocument r.discardResult)]
  ofDocument? d := return ⟨← d.get? "return_pc", ← d.get? "caller_frame",
    ← d.get? "caller_function", ← d.get? "discard_result"⟩

instance : Documented Slot where
  toDocument
    | .value v => tagged "Value" (toDocument v)
    | .record r => tagged "Return" (toDocument r)
  ofDocument? d := do
    match ← d.case? with
    | ("Value", d) => return .value (← ofDocument? d)
    | ("Return", d) => return .record (← ofDocument? d)
    | _ => none

/-- The fields of a saved instance, in order. -/
def SavedInstance.fields (i : SavedInstance) : List (String × Document) :=
  [("number", toDocument i.number), ("pc", toDocument i.pc), ("state", toDocument i.status),
    ("locals", toDocument i.locals), ("activator", toDocument i.activator),
    ("line", toDocument i.line), ("side", toDocument i.side), ("segment", toDocument i.segment),
    ("frame", toDocument i.frame), ("function", toDocument i.function),
    ("print", toDocument i.print), ("hud_opt", toDocument i.hudMark),
    ("result", toDocument i.result), ("last_tick", toDocument i.lastTick),
    ("registered", toDocument i.tracked)]

instance : Documented SavedInstance where
  toDocument i := .record i.fields
  ofDocument? d := return ⟨← d.get? "number", ← d.get? "pc", ← d.get? "state", ← d.get? "locals",
    ← d.get? "activator", ← d.get? "line", ← d.get? "side", ← d.get? "segment", ← d.get? "frame",
    ← d.get? "function", ← d.get? "print", ← d.get? "hud_opt", ← d.get? "result",
    ← d.get? "last_tick", ← d.get? "registered"⟩

/-! ## Snapshots -/

instance : Documented Fingerprint where
  toDocument f := .record [("len", toDocument f.length), ("sha256", toDocument f.digest)]
  ofDocument? d := return ⟨← d.get? "len", ← d.get? "sha256"⟩

instance : Documented Snapshot where
  toDocument s := .record [("map", toDocument s.map), ("module", toDocument s.fingerprint),
    ("map_vars", toDocument s.mapVars), ("map_arrays", toDocument s.mapArrays),
    ("instances", toDocument s.instances), ("tick", toDocument s.tick)]
  ofDocument? d := return ⟨← d.get? "map", ← d.get? "module", ← d.get? "map_vars",
    ← d.get? "map_arrays", ← d.get? "instances", ← d.get? "tick"⟩

end LevelScript
