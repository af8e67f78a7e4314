import LevelScript.Machine.Instance

/-!
# Rosters

A roster keeps the instances of a level in numbered cells. The cells with an instance are linked
in both directions, in the order in which the instances take turns. A cell that is given up is
used again; its generation then differs, so a `Handle` to the instance that was there no longer
finds anything.

* `Roster.instances` are the instances in the order of their turns.
* `Roster.add`, `Roster.erase`, `Roster.putFirst` and `Roster.putLast` change that order.
-/

namespace LevelScript

/-- Names an instance as long as it lives. -/
structure Handle where
  index : Nat
  generation : UInt32
  deriving DecidableEq, Repr, Inhabited

structure Cell where
  /-- How often the cell was given up. -/
  generation : UInt32
  /-- The cell whose instance takes its turn before. -/
  prev : Option Nat
  /-- The cell whose instance takes its turn after. -/
  next : Option Nat
  content : Option Instance
  linked : Bool
  deriving DecidableEq, Repr, Inhabited

/-- A cell that was never used. -/
def Cell.fresh : Cell := ⟨0, none, none, none, false⟩

structure Roster where
  cells : Array Cell
  /-- Cells without an instance, the one to use next first. -/
  free : List Nat
  /-- The cell of the first turn. -/
  head : Option Nat
  /-- The cell of the last turn. -/
  tail : Option Nat
  deriving DecidableEq, Repr, Inhabited

namespace Roster

def empty : Roster := ⟨#[], [], none, none⟩

/-! ## Finding instances -/

/-- The handle to what is in a cell now. -/
def handleAt (r : Roster) (index : Nat) : Handle :=
  ⟨index, (r.cells[index]?.map Cell.generation).getD 0⟩

/-- The cell a handle names, unless it was given up since. -/
def cell? (r : Roster) (h : Handle) : Option Cell :=
  (r.cells[h.index]?).filter fun c => c.linked && c.generation == h.generation

def instance? (r : Roster) (h : Handle) : Option Instance :=
  (r.cell? h).bind Cell.content

/-- The cells from one on, as their links lead; not more than there are. -/
def follow (r : Roster) : Nat → Option Nat → List Nat
  | 0, _ => []
  | _ + 1, none => []
  | count + 1, some index => index :: r.follow count ((r.cells[index]?).bind Cell.next)

/-- Cells with an instance, in the order of turns. -/
def order (r : Roster) : List Nat := r.follow r.cells.size r.head

/-- Handles in the order of turns. -/
def handles (r : Roster) : List Handle := r.order.map r.handleAt

/-- Instances with their handles, in the order of turns. -/
def entries (r : Roster) : List (Handle × Instance) :=
  r.handles.filterMap fun h => (r.instance? h).map (h, ·)

/-- Instances in the order of turns. -/
def instances (r : Roster) : List Instance := r.entries.map Prod.snd

/-- Handles of the instances that satisfy a condition, in the order of turns. -/
def handlesWhere (r : Roster) (p : Instance → Bool) : List Handle :=
  (r.entries.filter fun e => p e.2).map Prod.fst

/-! ## Changing instances -/

/-- Changes one cell. -/
def update (r : Roster) (index : Nat) (f : Cell → Cell) : Roster :=
  { r with cells := r.cells.modify index f }

/-- Changes the instance a handle names. -/
def modify (r : Roster) (h : Handle) (f : Instance → Instance) : Roster :=
  match r.instance? h with
  | none => r
  | some _ => r.update h.index fun c => { c with content := c.content.map f }

/-- Puts an instance into the cell a handle names, in place of the one there. -/
def replace (r : Roster) (h : Handle) (i : Instance) : Roster := r.modify h fun _ => i

/-- Changes every instance. -/
def mapInstances (r : Roster) (f : Instance → Instance) : Roster :=
  { r with cells := r.cells.map fun c => { c with content := c.content.map f } }

/-! ## Links -/

/-- What comes after a cell, or at the front, is now `next`. -/
def linkNext (r : Roster) (index next : Option Nat) : Roster :=
  match index with
  | some i => r.update i ({ · with next := next })
  | none => { r with head := next }

/-- What comes before a cell, or at the back, is now `prev`. -/
def linkPrev (r : Roster) (index prev : Option Nat) : Roster :=
  match index with
  | some i => r.update i ({ · with prev := prev })
  | none => { r with tail := prev }

/-- Takes a cell out of the order and joins its neighbours. -/
def detach (r : Roster) (index : Nat) : Roster :=
  let prev := (r.cells[index]?).bind Cell.prev
  let next := (r.cells[index]?).bind Cell.next
  ((r.update index ({ · with prev := none, next := none })).linkNext prev next).linkPrev next prev

/-- Puts a cell at the end of the order. -/
def attachLast (r : Roster) (index : Nat) : Roster :=
  let linked := (r.update index ({ · with prev := r.tail, next := none })).linkNext r.tail index
  { linked with tail := index }

/-- Puts a cell at the start of the order. -/
def attachFirst (r : Roster) (index : Nat) : Roster :=
  let linked := (r.update index ({ · with prev := none, next := r.head })).linkPrev r.head index
  { linked with head := index }

/-! ## Changing the order -/

/-- A cell for a new instance, and the roster with it no longer free. -/
def takeCell (r : Roster) : Nat × Roster :=
  match r.free with
  | index :: rest => (index, { r with free := rest })
  | [] => (r.cells.size, { r with cells := r.cells.push .fresh })

/-- Adds an instance that takes its turns after all others. -/
def add (r : Roster) (i : Instance) : Handle × Roster :=
  let (index, r) := r.takeCell
  (r.handleAt index,
    (r.update index ({ · with content := some i, linked := true })).attachLast index)

/-- Takes the instance out of a cell and gives the cell up. -/
def vacate (c : Cell) : Cell :=
  { c with content := none, linked := false, generation := c.generation + 1 }

/-- Removes the instance a handle names. -/
def erase (r : Roster) (h : Handle) : Roster :=
  match r.cell? h with
  | none => r
  | some _ =>
    let r := (r.update h.index vacate).detach h.index
    { r with free := h.index :: r.free }

/-- Lets an instance take its turns before all others. -/
def putFirst (r : Roster) (h : Handle) : Roster :=
  match r.cell? h with
  | none => r
  | some _ => (r.detach h.index).attachFirst h.index

/-- Lets an instance take its turns after all others. -/
def putLast (r : Roster) (h : Handle) : Roster :=
  match r.cell? h with
  | none => r
  | some _ => (r.detach h.index).attachLast h.index

/-- Removes all instances, one after the other. -/
def clear (r : Roster) : Roster := r.handles.foldl erase r

end Roster

end LevelScript
