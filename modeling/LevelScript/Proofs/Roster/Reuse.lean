import LevelScript.Proofs.Roster.View

/-!
# Which cells are used again

The handle of a new instance depends on the free cells and on the generations only, not on the
instances or their order. Two rosters that agree in these give the same handles.

* `Roster.SameCells`: the same cells are free, and all cells have the same generations.
* `SameCells.add`, `SameCells.erase`, `SameCells.clear`: the same changes keep this.
* `Roster.Advances`: a cell that is given up goes on to the next generation, all others keep theirs.
* `generation?_add`, `generation?_erase`, `generation?_clear`: the generations after each change.
-/

namespace LevelScript.Roster

/-- The generation of a cell. -/
def generation? (r : Roster) (i : Nat) : Option UInt32 := (r.tagAt i).map Prod.fst

/-- The same cells are free, in the same order, and all cells have the same generations. -/
structure SameCells (r₁ r₂ : Roster) : Prop where
  free : r₂.free = r₁.free
  generations : ∀ i, r₂.generation? i = r₁.generation? i

namespace SameCells

variable {r r₁ r₂ r₃ : Roster}

theorem refl (r : Roster) : r.SameCells r := ⟨rfl, fun _ => rfl⟩

theorem symm (h : r₁.SameCells r₂) : r₂.SameCells r₁ :=
  ⟨h.free.symm, fun i => (h.generations i).symm⟩

theorem trans (h : r₁.SameCells r₂) (h' : r₂.SameCells r₃) : r₁.SameCells r₃ :=
  ⟨h'.free.trans h.free, fun i => (h'.generations i).trans (h.generations i)⟩

/-- A change of instances or of their order on both sides. -/
theorem congr {r₁' r₂' : Roster} (h : r₁.SameCells r₂) (h₁ : r₁.SameCells r₁')
    (h₂ : r₂.SameCells r₂') : r₁'.SameCells r₂' :=
  (h₁.symm.trans h).trans h₂

/-! ## What leaves the cells alone -/

theorem modify (r : Roster) (h : Handle) (f : Instance → Instance) :
    r.SameCells (r.modify h f) := by
  constructor
  · unfold Roster.modify
    cases r.instance? h <;> rfl
  · intro i
    rw [generation?, tagAt_modify]
    split
    · rw [Option.map_map]
      rfl
    · rfl

theorem mapInstances (r : Roster) (f : Instance → Instance) : r.SameCells (r.mapInstances f) := by
  refine ⟨rfl, fun i => ?_⟩
  rw [generation?, tagAt_mapInstances, Option.map_map]
  rfl

theorem put {r r' : Roster} {h : Handle} (hr : r' = r.putFirst h ∨ r' = r.putLast h) :
    r.SameCells r' := by
  unfold putFirst putLast at hr
  split at hr
  · rcases hr with rfl | rfl <;> exact refl _
  · rcases hr with rfl | rfl
    · refine ⟨by rw [free_attachFirst, free_detach], fun i => ?_⟩
      rw [generation?, tagAt_attachFirst, tagAt_detach]
      rfl
    · refine ⟨by rw [free_attachLast, free_detach], fun i => ?_⟩
      rw [generation?, tagAt_attachLast, tagAt_detach]
      rfl

/-! ## New instances -/

theorem generation?_eq (r : Roster) (i : Nat) :
    r.generation? i = r.cells[i]?.map Cell.generation := by
  rw [generation?, tagAt, Option.map_map]
  rfl

theorem size_eq (h : r₁.SameCells r₂) : r₂.cells.size = r₁.cells.size := by
  have hnone : ∀ i : Nat, r₂.cells[i]? = none ↔ r₁.cells[i]? = none := by
    intro i
    have hi := h.generations i
    rw [generation?_eq, generation?_eq] at hi
    cases h₂ : r₂.cells[i]? <;> cases h₁ : r₁.cells[i]? <;> simp_all
  have h₁ := (hnone r₁.cells.size).mpr (by simp)
  have h₂ := (hnone r₂.cells.size).mp (by simp)
  rw [Array.getElem?_eq_none_iff] at h₁ h₂
  omega

theorem handleAt_eq (h : r₁.SameCells r₂) (i : Nat) : r₂.handleAt i = r₁.handleAt i := by
  have hi := h.generations i
  rw [generation?_eq, generation?_eq] at hi
  rw [handleAt, handleAt, hi]

theorem takeCell (h : r₁.SameCells r₂) :
    r₂.takeCell.1 = r₁.takeCell.1 ∧ r₁.takeCell.2.SameCells r₂.takeCell.2 := by
  unfold Roster.takeCell
  rw [h.free]
  cases r₁.free with
  | cons i rest => exact ⟨rfl, rfl, h.generations⟩
  | nil =>
    refine ⟨h.size_eq, rfl, fun i => ?_⟩
    have hi := h.generations i
    rw [generation?_eq, generation?_eq] at hi ⊢
    simp only [Array.getElem?_push, h.size_eq]
    split
    · rfl
    · exact hi

theorem add (hs₁ : r₁.Sound) (hs₂ : r₂.Sound) (h : r₁.SameCells r₂) (i j : Instance) :
    (r₂.add j).1 = (r₁.add i).1 ∧ (r₁.add i).2.SameCells (r₂.add j).2 := by
  obtain ⟨hindex, hcells⟩ := h.takeCell
  have hfst : (r₂.add j).1 = (r₁.add i).1 := by
    rw [fst_add, fst_add, hindex]
    exact hcells.handleAt_eq _
  refine ⟨hfst, ?_, fun k => ?_⟩
  · rw [free_add, free_add]
    exact hcells.free
  · rw [generation?, generation?, tagAt_add hs₁, tagAt_add hs₂, hindex, hfst]
    split
    · rfl
    · exact h.generations k

/-! ## Cells that are given up -/

theorem free_erase (hs : r.Sound) {h : Handle} {i : Instance} (hi : r.instance? h = some i) :
    (r.erase h).free = h.index :: r.free := by
  have hc : r.cell? h ≠ none := by simp [Ne, cell?_eq_none_iff hs, hi]
  obtain ⟨c, hc⟩ := Option.ne_none_iff_exists'.mp hc
  simp only [Roster.erase, hc, free_detach, update]

theorem erase (hs₁ : r₁.Sound) (hs₂ : r₂.Sound) (h : r₁.SameCells r₂) {k : Handle}
    {i j : Instance} (hi : r₁.instance? k = some i) (hj : r₂.instance? k = some j) :
    (r₁.erase k).SameCells (r₂.erase k) := by
  constructor
  · rw [free_erase hs₁ hi, free_erase hs₂ hj, h.free]
  · intro n
    rw [generation?, generation?, tagAt_erase hs₁ hi, tagAt_erase hs₂ hj]
    split
    · rfl
    · exact h.generations n

theorem foldl_erase (hs₁ : r₁.Sound) (hs₂ : r₂.Sound) (h : r₁.SameCells r₂)
    {handles : List Handle} (hnodup : handles.Nodup)
    (h₁ : ∀ k ∈ handles, ∃ i, r₁.instance? k = some i)
    (h₂ : ∀ k ∈ handles, ∃ j, r₂.instance? k = some j) :
    (handles.foldl Roster.erase r₁).SameCells (handles.foldl Roster.erase r₂) := by
  induction handles generalizing r₁ r₂ with
  | nil => exact h
  | cons k rest ih =>
    obtain ⟨hnot, hnodup⟩ := List.nodup_cons.mp hnodup
    obtain ⟨i, hi⟩ := h₁ k List.mem_cons_self
    obtain ⟨j, hj⟩ := h₂ k List.mem_cons_self
    have hne : ∀ n ∈ rest, n ≠ k := fun n hn heq => hnot (heq ▸ hn)
    refine ih (sound_erase hs₁ k).1 (sound_erase hs₂ k).1 (h.erase hs₁ hs₂ hi hj) hnodup
      (fun n hn => ?_) fun n hn => ?_
    · rw [instance?_erase hs₁, if_neg (hne n hn)]
      exact h₁ n (List.mem_cons_of_mem _ hn)
    · rw [instance?_erase hs₂, if_neg (hne n hn)]
      exact h₂ n (List.mem_cons_of_mem _ hn)

theorem clear (hs₁ : r₁.Sound) (hs₂ : r₂.Sound) (h : r₁.SameCells r₂)
    (hhandles : r₂.handles = r₁.handles) : r₁.clear.SameCells r₂.clear := by
  have hlive : ∀ {r : Roster}, r.Sound → ∀ k ∈ r.handles, ∃ i, r.instance? k = some i := by
    intro r hs k hk
    rw [handles_eq hs] at hk
    obtain ⟨⟨_, i⟩, hi, rfl⟩ := List.mem_map.mp hk
    exact ⟨i, (mem_entries_iff hs).mp hi⟩
  unfold Roster.clear
  rw [hhandles]
  refine foldl_erase hs₁ hs₂ h ?_ (hlive hs₁) fun k hk => hlive hs₂ k (hhandles ▸ hk)
  rw [handles_eq hs₁]
  exact nodup_keys hs₁

end SameCells

/-! ## From one generation to the next -/

/-- Whether a cell has an instance. -/
def occupied (r : Roster) (i : Nat) : Bool := (r.instance? (r.handleAt i)).isSome

/-- Whether a cell is given up from one roster to the next. -/
def releases (r r' : Roster) (i : Nat) : Bool := r.occupied i && !r'.occupied i

/-- A cell that is given up goes on to the next generation; all others keep theirs. -/
def Advances (r r' : Roster) : Prop :=
  ∀ i g, r.generation? i = some g → r'.generation? i = some (if r.releases r' i then g + 1 else g)

variable {r r' : Roster} {i : Nat} {g : UInt32}

theorem handleAt_of_generation? (hg : r.generation? i = some g) : r.handleAt i = ⟨i, g⟩ := by
  obtain ⟨t, ht, rfl⟩ := Option.map_eq_some_iff.mp hg
  exact handleAt_of_tagAt ht

theorem generation?_of_instance? {h : Handle} (hi : r.instance? h ≠ none) :
    r.generation? h.index = some h.generation := by
  obtain ⟨c, hc⟩ := Option.ne_none_iff_exists'.mp hi
  rw [generation?, instance?_eq_some.mp hc]
  rfl

theorem occupied_eq (hg : r.generation? i = some g) :
    r.occupied i = (r.instance? ⟨i, g⟩).isSome := by
  rw [occupied, handleAt_of_generation? hg]

theorem advances_of_keeps
    (hgen : ∀ i g, r.generation? i = some g → r'.generation? i = some g)
    (hinst : ∀ h, r.instance? h ≠ none → r'.instance? h ≠ none) : r.Advances r' := by
  intro i g hg
  have hkept : r.releases r' i = false := by
    rw [releases, occupied_eq hg, occupied_eq (hgen i g hg)]
    have := hinst ⟨i, g⟩
    cases h : r.instance? ⟨i, g⟩ <;> cases h' : r'.instance? ⟨i, g⟩ <;> simp_all
  rw [hkept]
  exact hgen i g hg

theorem generation?_add (hs : r.Sound) (hg : r.generation? i = some g) (c : Instance) :
    (r.add c).2.generation? i = some g := by
  have htaken : r.takeCell.2.generation? i = some g := by
    unfold takeCell
    cases r.free with
    | cons k rest => exact hg
    | nil =>
      rw [SameCells.generation?_eq] at hg ⊢
      obtain ⟨d, hd, rfl⟩ := Option.map_eq_some_iff.mp hg
      have hlt := (Array.getElem?_eq_some_iff.mp hd).1
      simp only [Array.getElem?_push, Nat.ne_of_lt hlt, if_false, hd, Option.map_some]
  rw [generation?, tagAt_add hs]
  split
  · rename_i heq
    rw [fst_add, ← heq, handleAt_of_generation? htaken]
    rfl
  · exact hg

theorem generation?_erase (hs : r.Sound) {h : Handle} (hi : r.instance? h ≠ none) (i : Nat) :
    (r.erase h).generation? i =
      if i = h.index then some (h.generation + 1) else r.generation? i := by
  obtain ⟨c, hc⟩ := Option.ne_none_iff_exists'.mp hi
  rw [generation?, tagAt_erase hs hc]
  split <;> rfl

theorem generation?_foldl_erase (hs : r.Sound) {handles : List Handle}
    (hnodup : (handles.map Handle.index).Nodup) (hlive : ∀ h ∈ handles, r.instance? h ≠ none)
    (i : Nat) : (handles.foldl erase r).generation? i =
      if i ∈ handles.map Handle.index then (r.generation? i).map (· + 1) else r.generation? i := by
  induction handles generalizing r with
  | nil => rfl
  | cons h rest ih =>
    obtain ⟨hnot, hnodup⟩ := List.nodup_cons.mp hnodup
    have hh := hlive h List.mem_cons_self
    have hrest : ∀ k ∈ rest, (r.erase h).instance? k ≠ none := by
      intro k hk
      have hne : k ≠ h := fun heq => hnot (heq ▸ List.mem_map_of_mem hk)
      rw [instance?_erase hs, if_neg hne]
      exact hlive k (List.mem_cons_of_mem _ hk)
    rw [List.foldl_cons, ih (sound_erase hs h).1 hnodup hrest, generation?_erase hs hh]
    by_cases hi : i = h.index
    · rw [if_pos hi, if_neg (hi ▸ hnot), if_pos (by simp [hi]), hi, generation?_of_instance? hh]
      rfl
    · simp [hi]

/-- Clearing gives up the cells that have an instance, and no others. -/
theorem generation?_clear (hs : r.Sound) (hg : r.generation? i = some g) :
    r.clear.generation? i = some (if r.occupied i then g + 1 else g) := by
  have hindices : r.handles.map Handle.index = r.order := by
    rw [handles_eq hs, List.map_map, ← map_index_entries hs]
    rfl
  have hlive : ∀ h ∈ r.handles, r.instance? h ≠ none := by
    intro h hh
    rw [handles_eq hs] at hh
    obtain ⟨⟨_, c⟩, hc, rfl⟩ := List.mem_map.mp hh
    simp [(mem_entries_iff hs).mp hc]
  have hoccupied : i ∈ r.order ↔ r.occupied i = true := by
    rw [occupied_eq hg, hs.mem_order, Option.isSome_iff_exists]
    obtain ⟨t, ht, rfl⟩ := Option.map_eq_some_iff.mp hg
    simp only [instance?_eq_some, ht]
    constructor
    · rintro ⟨g, c, heq⟩
      exact ⟨c, by rw [Option.some.inj heq]⟩
    · rintro ⟨c, heq⟩
      exact ⟨t.1, c, heq⟩
  have hfold := generation?_foldl_erase hs (hindices ▸ hs.spells.nodup) hlive i
  rw [hindices, hg, Option.map_some] at hfold
  rw [clear, hfold]
  by_cases hi : r.occupied i = true
  · rw [if_pos (hoccupied.mpr hi), if_pos hi]
  · rw [if_neg (mt hoccupied.mp hi), if_neg hi]

end LevelScript.Roster
