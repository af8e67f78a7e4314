import LevelScript.Proofs.Machine.Changes

/-!
# What instructions keep

Whatever an instruction does, and wherever it faults, the arrays of the map keep their lengths, and
what waits in the session for other maps stays as it is. An instruction that does not jump leaves
the offset where its operands end, and one that jumps leaves the status.

* `Machine.Changes.keeps`: from the small changes.
* `Machine.keeps_run`: a whole turn.
-/

namespace LevelScript

/-! ## Lengths of arrays -/

namespace MapMemory

/-- The lengths of the arrays. -/
def shape (m : MapMemory) : Array Nat := m.arrays.map Array.size

@[simp] theorem shape_setElement (m : MapMemory) (array index v : Int32) :
    (m.setElement array index v).shape = m.shape := by
  unfold setElement
  split
  · apply Array.ext
    · simp [shape]
    · intro i h₁ h₂
      simp only [shape, Array.getElem_map, Array.getElem_modify]
      split <;> simp
  · rfl

end MapMemory

/-! ## Waiting requests -/

namespace Session

theorem deferred_setWorldElement (s : Session) (a : Nat) (i v : Int32) :
    (s.setWorldElement a i v).deferred = s.deferred := by
  unfold setWorldElement
  split <;> rfl

theorem deferred_setGlobalElement (s : Session) (a : Nat) (i v : Int32) :
    (s.setGlobalElement a i v).deferred = s.deferred := by
  unfold setGlobalElement
  split <;> rfl

end Session

/-! ## Small changes -/

namespace Machine

variable {ω : Type} {moves yields : Bool} {m m' m'' : Machine ω}

/-- What a later machine has kept; the offset only where nothing moves it, and the status only
where nothing yields. -/
structure Keeps (moves yields : Bool) (m m' : Machine ω) : Prop where
  pc : moves = false → m'.inst.pc = m.inst.pc
  status : yields = false → m'.inst.status = m.inst.status
  shape : m'.memory.shape = m.memory.shape
  deferred : m'.session.deferred = m.session.deferred

namespace Keeps

theorem refl (m : Machine ω) : m.Keeps moves yields m := ⟨fun _ => rfl, fun _ => rfl, rfl, rfl⟩

theorem trans (h : m.Keeps moves yields m') (h' : m'.Keeps moves yields m'') :
    m.Keeps moves yields m'' where
  pc hm := (h'.pc hm).trans (h.pc hm)
  status hy := (h'.status hy).trans (h.status hy)
  shape := h'.shape.trans h.shape
  deferred := h'.deferred.trans h.deferred

end Keeps

variable [Host ω] {ctx : Context}

theorem Change.keeps (h : Change ctx moves yields m m') : m.Keeps moves yields m' := by
  cases h with
  | move pc frame function h => exact ⟨by simp [h], fun _ => rfl, rfl, rfl⟩
  | yield st h => exact ⟨fun _ => rfl, by simp [h], rfl, rfl⟩
  | mapElement => exact ⟨fun _ => rfl, fun _ => rfl, MapMemory.shape_setElement .., rfl⟩
  | worldElement =>
    exact ⟨fun _ => rfl, fun _ => rfl, rfl, Session.deferred_setWorldElement ..⟩
  | globalElement =>
    exact ⟨fun _ => rfl, fun _ => rfl, rfl, Session.deferred_setGlobalElement ..⟩
  | _ => exact ⟨fun _ => rfl, fun _ => rfl, rfl, rfl⟩

theorem Changes.keeps (h : Changes ctx moves yields m m') : m.Keeps moves yields m' :=
  h.keep (P := m.Keeps moves yields) (fun _ _ hc hm => hm.trans hc.keeps) (.refl m)

/-- A turn keeps the lengths of the arrays, and what waits for other maps. -/
theorem keeps_run (program : Program) (config : Config) (m : Machine ω) :
    m.Keeps true true (m.run program config).2 := by
  rcases changes_run program config m with ⟨-, hrun⟩ | ⟨-, m', hchanges, hrun⟩
  · rw [hrun]
    exact ⟨nofun, nofun, rfl, rfl⟩
  · rw [hrun]
    exact ⟨nofun, nofun, hchanges.keeps.shape, hchanges.keeps.deferred⟩

end Machine

end LevelScript
