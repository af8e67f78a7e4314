/-!
# Map memory

The variables and arrays of a map. There are 128 variables; the arrays have the lengths that the
program declares. Reading outside gives nothing or zero, writing outside changes nothing.
-/

namespace LevelScript

/-- How many variables a map has. -/
def mapVarCount : Nat := 128

structure MapMemory where
  vars : Vector Int32 mapVarCount
  arrays : Array (Array Int32)
  deriving DecidableEq, Repr

namespace MapMemory

def empty : MapMemory := ⟨Vector.replicate mapVarCount 0, #[]⟩

instance : Inhabited MapMemory := ⟨empty⟩

def var? (m : MapMemory) (i : Nat) : Option Int32 := m.vars[i]?

/-- Writes a variable. -/
def setVar (m : MapMemory) (i : Nat) (v : Int32) : MapMemory :=
  { m with vars := m.vars.setIfInBounds i v }

/-- The number of an array or of an element, unless it is negative. -/
def index? (i : Int32) : Option Nat :=
  if i < 0 then none else some i.toNatClampNeg

def array? (m : MapMemory) (array : Int32) : Option (Array Int32) :=
  (index? array).bind (m.arrays[·]?)

/-- An element; zero outside the array. -/
def element (m : MapMemory) (array index : Int32) : Int32 :=
  match m.array? array, index? index with
  | some a, some i => a.getD i 0
  | _, _ => 0

/-- Writes an element. -/
def setElement (m : MapMemory) (array index v : Int32) : MapMemory :=
  match index? array, index? index with
  | some a, some i => { m with arrays := m.arrays.modify a (·.setIfInBounds i v) }
  | _, _ => m

/-- Whether two memories have arrays of the same lengths. -/
def sameShape (arrays arrays' : Array (Array Int32)) : Bool :=
  arrays.map Array.size == arrays'.map Array.size

end MapMemory

end LevelScript
