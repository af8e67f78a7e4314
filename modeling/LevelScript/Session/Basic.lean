import LevelScript.Session.Deferred

/-!
# Sessions

What outlives a level: variables and arrays of the world and of the whole game, and the requests
that wait for other maps. Writing outside a scope changes nothing.
-/

namespace LevelScript

/-! ## Sparse arrays

Arrays without bounds: every index can be written, and one that was not reads as zero. Only
elements other than zero are stored. -/

structure SparseArray where
  cells : Std.ExtTreeMap Int32 Int32

namespace SparseArray

def empty : SparseArray := ⟨∅⟩

instance : Inhabited SparseArray := ⟨empty⟩

def get (a : SparseArray) (i : Int32) : Int32 := a.cells.getD i 0

def set (a : SparseArray) (i v : Int32) : SparseArray :=
  if v = 0 then ⟨a.cells.erase i⟩ else ⟨a.cells.insert i v⟩

/-- Stored elements by ascending index. -/
def toList (a : SparseArray) : List (Int32 × Int32) := a.cells.toList

/-- Stores elements as they are given; of two with one index the later counts. -/
def ofList (l : List (Int32 × Int32)) : SparseArray :=
  ⟨l.foldl (fun m e => m.insert e.1 e.2) ∅⟩

end SparseArray

/-! ## Scopes -/

/-- How many world variables there are, and how many world arrays. -/
def worldCount : Nat := 256

/-- How many global variables there are, and how many global arrays. -/
def globalCount : Nat := 64

structure Session where
  worldVars : Vector Int32 worldCount
  worldArrays : Vector SparseArray worldCount
  globalVars : Vector Int32 globalCount
  globalArrays : Vector SparseArray globalCount
  deferred : DeferredQueue

namespace Session

def empty : Session where
  worldVars := Vector.replicate worldCount 0
  worldArrays := Vector.replicate worldCount .empty
  globalVars := Vector.replicate globalCount 0
  globalArrays := Vector.replicate globalCount .empty
  deferred := .empty

instance : Inhabited Session := ⟨empty⟩

def worldVar? (s : Session) (i : Nat) : Option Int32 := s.worldVars[i]?

def globalVar? (s : Session) (i : Nat) : Option Int32 := s.globalVars[i]?

def setWorldVar (s : Session) (i : Nat) (v : Int32) : Session :=
  { s with worldVars := s.worldVars.setIfInBounds i v }

def setGlobalVar (s : Session) (i : Nat) (v : Int32) : Session :=
  { s with globalVars := s.globalVars.setIfInBounds i v }

def worldArray? (s : Session) (a : Nat) : Option SparseArray := s.worldArrays[a]?

def globalArray? (s : Session) (a : Nat) : Option SparseArray := s.globalArrays[a]?

def setWorldElement (s : Session) (a : Nat) (i v : Int32) : Session :=
  if h : a < worldCount then
    { s with worldArrays := s.worldArrays.set a (s.worldArrays[a].set i v) }
  else s

def setGlobalElement (s : Session) (a : Nat) (i v : Int32) : Session :=
  if h : a < globalCount then
    { s with globalArrays := s.globalArrays.set a (s.globalArrays[a].set i v) }
  else s

/-- The world starts over; the game's scope and the waiting requests stay. -/
def resetWorld (s : Session) : Session :=
  { s with
    worldVars := Vector.replicate worldCount 0
    worldArrays := Vector.replicate worldCount .empty }

/-- Files a request for another map. -/
def defer (s : Session) (e : DeferredEntry) : Session :=
  { s with deferred := s.deferred.push e }

end Session

end LevelScript
