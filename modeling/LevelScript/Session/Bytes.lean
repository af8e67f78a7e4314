import LevelScript.Session.Basic
import LevelScript.Snapshot.Basic

/-!
# Sessions as bytes

A session keeps all its scopes and the requests that wait. Bytes whose scopes have other sizes
are refused.
-/

namespace LevelScript

namespace Codec

def sparseArray : Codec SparseArray :=
  (int.pair int).list.convert SparseArray.toList SparseArray.ofList

def deferredAction : Codec DeferredAction :=
  enumeration [.execute, .executeAlways, .suspend, .terminate]

def scriptArgs : Codec ScriptArgs :=
  (int.pair (int.pair int)).convert (fun a => (a.a₀, a.a₁, a.a₂)) fun (a, b, c) => ⟨a, b, c⟩

def deferredEntry : Codec DeferredEntry :=
  (int.pair <| deferredAction.pair <| int.pair <| scriptArgs.pair byte.option).convert
    (fun e => (e.map, e.action, e.script, e.args, e.player))
    fun (map, action, script, args, player) => ⟨map, action, script, args, player⟩

def deferredQueue : Codec DeferredQueue :=
  (int.pair deferredEntry.list).list.convert DeferredQueue.toList DeferredQueue.ofList

/-- World variables and arrays, global variables and arrays, and what waits. -/
def sessionParts : Codec (Array Int32 × Array SparseArray × Array Int32 × Array SparseArray ×
    DeferredQueue) :=
  int.array.pair <| sparseArray.array.pair <| int.array.pair <| sparseArray.array.pair <|
    deferredQueue

end Codec

namespace Session

def toBytes (s : Session) : List UInt8 :=
  Codec.sessionParts.encode (s.worldVars.toArray, s.worldArrays.toArray, s.globalVars.toArray,
    s.globalArrays.toArray, s.deferred)

/-- Reads a session; bytes after it are ignored. -/
def ofBytes (bytes : List UInt8) : Except SaveError Session :=
  match Codec.sessionParts.decode bytes with
  | .error e => .error (.decode e)
  | .ok ((worldVars, worldArrays, globalVars, globalArrays, deferred), _) =>
    if h : worldVars.size = worldCount ∧ worldArrays.size = worldCount ∧
        globalVars.size = globalCount ∧ globalArrays.size = globalCount then
      .ok ⟨⟨worldVars, h.1⟩, ⟨worldArrays, h.2.1⟩, ⟨globalVars, h.2.2.1⟩,
        ⟨globalArrays, h.2.2.2⟩, deferred⟩
    else .error (.shape .sessionScopes)

/-- Whether two sessions hold the same. -/
def same (s t : Session) : Bool :=
  s.worldVars == t.worldVars && s.globalVars == t.globalVars &&
    s.worldArrays.map SparseArray.toList == t.worldArrays.map SparseArray.toList &&
    s.globalArrays.map SparseArray.toList == t.globalArrays.map SparseArray.toList &&
    s.deferred.toList == t.deferred.toList

end Session

end LevelScript
