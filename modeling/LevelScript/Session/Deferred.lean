import LevelScript.Journal
import Std.Data.ExtTreeMap

/-!
# Deferred requests

Requests for maps that are not loaded wait in a queue for each map, until that map starts.
-/

namespace LevelScript

structure DeferredEntry where
  map : Int32
  action : DeferredAction
  script : Int32
  args : ScriptArgs
  /-- The player who asked, whose body may be another one by then. -/
  player : Option UInt8
  deriving DecidableEq, Repr, Inhabited

/-- A queue for each map that has requests waiting. -/
structure DeferredQueue where
  maps : Std.ExtTreeMap Int32 (List DeferredEntry)

namespace DeferredQueue

def empty : DeferredQueue := ⟨∅⟩

instance : Inhabited DeferredQueue := ⟨empty⟩

/-- Adds an entry at the end of its map's queue. -/
def push (q : DeferredQueue) (e : DeferredEntry) : DeferredQueue :=
  ⟨q.maps.insert e.map (q.maps.getD e.map [] ++ [e])⟩

/-- Entries that wait for a map, oldest first. -/
def waiting (q : DeferredQueue) (map : Int32) : List DeferredEntry := q.maps.getD map []

/-- The queue without the entries of a map. -/
def drop (q : DeferredQueue) (map : Int32) : DeferredQueue := ⟨q.maps.erase map⟩

def isEmpty (q : DeferredQueue) : Bool := q.maps.isEmpty

/-- Queues by ascending map. -/
def toList (q : DeferredQueue) : List (Int32 × List DeferredEntry) := q.maps.toList

/-- Files queues as they are given; of two with one map the later counts. -/
def ofList (l : List (Int32 × List DeferredEntry)) : DeferredQueue :=
  ⟨l.foldl (fun m e => m.insert e.1 e.2) ∅⟩

/-- All entries, map by map. -/
def entries (q : DeferredQueue) : List DeferredEntry := q.toList.flatMap (·.2)

def length (q : DeferredQueue) : Nat := q.entries.length

end DeferredQueue

end LevelScript
