import Mathlib.Data.List.Nodup
import LevelScript.Proofs.Roster.Links

/-!
# What a roster holds

A sound roster is a list of instances with their handles: `Roster.entries`. Each operation is one
equation about that list, and what is not about links or cells is proved from these equations.

* `Sound`: the links spell the order, linked cells are those with an instance, and the free list
  holds the other cells, each once.
* `mem_entries_iff`: a handle finds an instance exactly if the list has the pair.
* `entries_add`, `entries_modify`, `entries_mapInstances`, each beside the fact that the operation
  keeps the roster sound; `sound_erase`, `sound_putFirst`, `sound_putLast` say both at once.
-/

namespace LevelScript.Roster

/-! ## Cells apart from their links -/

/-- What a cell is apart from its links. -/
def tagAt (r : Roster) (i : Nat) : Option (UInt32 × Option Instance × Bool) :=
  (r.cells[i]?).map fun c => (c.generation, c.content, c.linked)

theorem tagAt_update {r : Roster} (i j : Nat) {f : Cell → Cell}
    (hf : ∀ c, (f c).generation = c.generation ∧ (f c).content = c.content ∧
      (f c).linked = c.linked) : (r.update i f).tagAt j = r.tagAt j := by
  unfold tagAt update
  simp only [Array.getElem?_modify]
  split
  · rw [Option.map_map]
    congr 1
    funext c
    simp only [Function.comp_apply, (hf c).1, (hf c).2.1, (hf c).2.2]
  · rfl

theorem tagAt_linkNext (r : Roster) (index next : Option Nat) (j : Nat) :
    (r.linkNext index next).tagAt j = r.tagAt j := by
  cases index with
  | none => rfl
  | some i => exact tagAt_update i j fun c => ⟨rfl, rfl, rfl⟩

theorem tagAt_linkPrev (r : Roster) (index prev : Option Nat) (j : Nat) :
    (r.linkPrev index prev).tagAt j = r.tagAt j := by
  cases index with
  | none => rfl
  | some i => exact tagAt_update i j fun c => ⟨rfl, rfl, rfl⟩

theorem tagAt_detach (r : Roster) (i j : Nat) : (r.detach i).tagAt j = r.tagAt j := by
  unfold detach
  rw [tagAt_linkPrev, tagAt_linkNext]
  exact tagAt_update i j fun c => ⟨rfl, rfl, rfl⟩

theorem tagAt_attachLast (r : Roster) (i j : Nat) : (r.attachLast i).tagAt j = r.tagAt j := by
  have h := tagAt_linkNext (r.update i ({ · with prev := r.tail, next := none })) r.tail (some i) j
  exact h.trans (tagAt_update i j fun c => ⟨rfl, rfl, rfl⟩)

theorem tagAt_attachFirst (r : Roster) (i j : Nat) : (r.attachFirst i).tagAt j = r.tagAt j := by
  have h := tagAt_linkPrev (r.update i ({ · with prev := none, next := r.head })) r.head (some i) j
  exact h.trans (tagAt_update i j fun c => ⟨rfl, rfl, rfl⟩)

/-- A handle finds an instance that is in its cell, linked and of its generation. -/
theorem instance?_eq_some {r : Roster} {h : Handle} {i : Instance} :
    r.instance? h = some i ↔ r.tagAt h.index = some (h.generation, some i, true) := by
  unfold instance? cell? tagAt
  cases hc : r.cells[h.index]? with
  | none => simp
  | some c =>
    simp only [Option.filter_some, Option.map_some, Option.some.injEq, Prod.mk.injEq]
    by_cases hg : c.linked = true ∧ c.generation = h.generation
    · simp [hg.1, hg.2]
    · rw [if_neg (by simpa using hg)]
      simp only [Option.bind_none, reduceCtorEq, false_iff]
      rintro ⟨h₁, -, h₂⟩
      exact hg ⟨h₂, h₁⟩

theorem handleAt_of_tagAt {r : Roster} {i : Nat} {g : UInt32} {t : Option Instance × Bool}
    (h : r.tagAt i = some (g, t)) : r.handleAt i = ⟨i, g⟩ := by
  obtain ⟨c, hc, ht⟩ := Option.map_eq_some_iff.mp h
  simp only [Prod.mk.injEq] at ht
  simp [handleAt, hc, ht.1]

/-- The pair that a cell contributes to the entries. -/
def entryAt (r : Roster) (i : Nat) : Option (Handle × Instance) :=
  (r.tagAt i).bind fun t => t.2.1.map fun c => (⟨i, t.1⟩, c)

/-! ## Sound rosters -/

/-- The links spell the order, linked cells are those with an instance, and the free list holds
the other cells, each once. -/
structure Sound (r : Roster) : Prop where
  spells : r.Spells r.order
  mem_order : ∀ i, i ∈ r.order ↔ ∃ g c, r.tagAt i = some (g, some c, true)
  content : ∀ i g c l, r.tagAt i = some (g, c, l) → l = c.isSome
  free_nodup : r.free.Nodup
  mem_free : ∀ i, i ∈ r.free ↔ ∃ g, r.tagAt i = some (g, none, false)

/-- A roster is sound if its links spell some list that has the right cells. -/
theorem Sound.of_spells {r : Roster} {xs : List Nat} (hx : r.Spells xs)
    (hmem : ∀ i, i ∈ xs ↔ ∃ g c, r.tagAt i = some (g, some c, true))
    (hcontent : ∀ i g c l, r.tagAt i = some (g, c, l) → l = c.isSome) (hnd : r.free.Nodup)
    (hfree : ∀ i, i ∈ r.free ↔ ∃ g, r.tagAt i = some (g, none, false)) : r.Sound := by
  have horder := hx.order_eq
  exact ⟨horder ▸ hx, horder ▸ hmem, hcontent, hnd, hfree⟩

theorem sound_empty : empty.Sound := by
  have hx : empty.Spells [] := ⟨List.nodup_nil, rfl, rfl, trivial⟩
  refine Sound.of_spells hx ?_ ?_ List.nodup_nil ?_
  · intro i
    simp [tagAt, empty]
  · intro i g c l h
    simp [tagAt, empty] at h
  · intro i
    simp [tagAt, empty]

section

variable {r : Roster} (hs : r.Sound)

include hs

theorem entries_eq : r.entries = r.order.filterMap r.entryAt := by
  unfold entries handles
  rw [List.filterMap_map]
  refine List.filterMap_congr fun i hi => ?_
  obtain ⟨g, c, hc⟩ := (hs.mem_order i).mp hi
  have hfind : r.instance? (r.handleAt i) = some c := by
    rw [instance?_eq_some, handleAt_of_tagAt hc]
    exact hc
  simp only [Function.comp_apply, hfind, Option.map_some, entryAt, hc, Option.bind_some]
  rw [handleAt_of_tagAt hc]

theorem mem_entries_iff {h : Handle} {i : Instance} :
    (h, i) ∈ r.entries ↔ r.instance? h = some i := by
  rw [entries_eq hs, List.mem_filterMap, instance?_eq_some]
  constructor
  · rintro ⟨k, hk, he⟩
    obtain ⟨g, c, hc⟩ := (hs.mem_order k).mp hk
    simp only [entryAt, hc, Option.bind_some, Option.map_some, Option.some.injEq,
      Prod.mk.injEq] at he
    obtain ⟨rfl, rfl⟩ := he
    exact hc
  · intro hc
    refine ⟨h.index, (hs.mem_order _).mpr ⟨_, _, hc⟩, ?_⟩
    simp [entryAt, hc]

/-- The entries are in the cells of the order. -/
theorem map_index_entries : r.entries.map (·.1.index) = r.order := by
  rw [entries_eq hs, List.map_filterMap]
  conv_rhs => rw [← List.filterMap_some (l := r.order)]
  refine List.filterMap_congr fun i hi => ?_
  obtain ⟨g, c, hc⟩ := (hs.mem_order i).mp hi
  simp [entryAt, hc]

theorem handles_eq : r.handles = r.entries.map Prod.fst := by
  unfold entries
  rw [List.map_filterMap]
  conv_lhs => rw [← List.filterMap_some (l := r.handles)]
  refine List.filterMap_congr fun h hh => ?_
  obtain ⟨i, hi, rfl⟩ := List.mem_map.mp hh
  obtain ⟨g, c, hc⟩ := (hs.mem_order i).mp hi
  have hfind : r.instance? (r.handleAt i) = some c := by
    rw [instance?_eq_some, handleAt_of_tagAt hc]
    exact hc
  simp [hfind]

/-- No two entries are in one cell; in particular handles are distinct. -/
theorem nodup_index_entries : (r.entries.map (·.1.index)).Nodup := by
  rw [map_index_entries hs]
  exact hs.spells.nodup

theorem nodup_keys : (r.entries.map Prod.fst).Nodup := by
  have h := nodup_index_entries hs
  rw [← Function.comp_def Handle.index Prod.fst, ← List.map_map] at h
  exact List.Nodup.of_map _ h

end

/-! ## Changing instances -/

/-- How a change of one cell shows, if it treats content and mark by themselves. -/
theorem tagAt_update_self {r : Roster} {i : Nat} {f : Cell → Cell} {g : UInt32}
    {c : Option Instance} {l : Bool} (h : r.tagAt i = some (g, c, l))
    {t : UInt32 × Option Instance × Bool}
    (hf : ∀ d : Cell, d.generation = g → d.content = c → d.linked = l →
      ((f d).generation, (f d).content, (f d).linked) = t) : (r.update i f).tagAt i = some t := by
  obtain ⟨d, hd, ht⟩ := Option.map_eq_some_iff.mp h
  simp only [Prod.mk.injEq] at ht
  simp only [tagAt, update, Array.getElem?_modify, if_true, hd, Option.map_some, Option.some.injEq]
  exact hf d ht.1 ht.2.1 ht.2.2

theorem tagAt_update_of_ne {r : Roster} {i j : Nat} (f : Cell → Cell) (h : i ≠ j) :
    (r.update i f).tagAt j = r.tagAt j := by
  simp only [tagAt, update, Array.getElem?_modify, if_neg h]

/-- Changing the contents of cells that have one keeps a roster sound. -/
theorem Sound.mapTags {r r' : Roster} (hs : r.Sound) (hx : r'.Spells r.order)
    (hfree : r'.free = r.free)
    (htag : ∀ i, ∃ f : Instance → Instance,
      r'.tagAt i = (r.tagAt i).map fun t => (t.1, t.2.1.map f, t.2.2)) : r'.Sound := by
  refine Sound.of_spells hx ?_ ?_ (hfree ▸ hs.free_nodup) ?_
  · intro i
    obtain ⟨f, hf⟩ := htag i
    rw [hs.mem_order, hf]
    cases r.tagAt i with
    | none => simp
    | some t =>
      obtain ⟨g, c, l⟩ := t
      cases c <;> simp
  · intro i g c l h
    obtain ⟨f, hf⟩ := htag i
    rw [hf] at h
    obtain ⟨⟨g', c', l'⟩, ht, he⟩ := Option.map_eq_some_iff.mp h
    simp only [Prod.mk.injEq] at he
    have := hs.content i g' c' l' ht
    rw [← he.2.2, ← he.2.1, this, Option.isSome_map]
  · intro i
    obtain ⟨f, hf⟩ := htag i
    rw [hfree, hs.mem_free, hf]
    cases r.tagAt i with
    | none => simp
    | some t =>
      obtain ⟨g, c, l⟩ := t
      cases c <;> simp

section Changing

variable {r : Roster} {h : Handle} {f : Instance → Instance}

theorem tagAt_modify (r : Roster) (h : Handle) (f : Instance → Instance) (j : Nat) :
    (r.modify h f).tagAt j = if (r.instance? h).isSome ∧ h.index = j then
      (r.tagAt j).map fun t => (t.1, t.2.1.map f, t.2.2) else r.tagAt j := by
  unfold modify
  cases hi : r.instance? h with
  | none => simp
  | some i =>
    by_cases hj : h.index = j
    · subst hj
      have htag := instance?_eq_some.mp hi
      simp only [Option.isSome_some, and_self, if_true, htag, Option.map_some]
      exact tagAt_update_self htag fun d h₁ h₂ h₃ => by simp [h₁, h₂, h₃]
    · simp only [hj, and_false, if_false]
      exact tagAt_update_of_ne _ hj

theorem spells_modify (hs : r.Sound) (h : Handle) (f : Instance → Instance) :
    (r.modify h f).Spells r.order := by
  unfold modify
  cases r.instance? h with
  | none => exact hs.spells
  | some i =>
    exact hs.spells.congr rfl rfl fun j => linkAt_modify_of_keeps _ j fun c => ⟨rfl, rfl⟩

theorem sound_modify (hs : r.Sound) (h : Handle) (f : Instance → Instance) :
    (r.modify h f).Sound := by
  refine hs.mapTags (spells_modify hs h f) ?_ fun i => ?_
  · unfold modify
    cases r.instance? h <;> rfl
  · rw [tagAt_modify]
    split
    · exact ⟨f, rfl⟩
    · exact ⟨id, by simp⟩

theorem entries_modify (hs : r.Sound) (h : Handle) (f : Instance → Instance) :
    (r.modify h f).entries = r.entries.map fun e => if e.1 = h then (e.1, f e.2) else e := by
  have hs' := sound_modify hs h f
  rw [entries_eq hs', (spells_modify hs h f).order_eq, entries_eq hs, List.map_filterMap]
  refine List.filterMap_congr fun i hi => ?_
  obtain ⟨g, c, hc⟩ := (hs.mem_order i).mp hi
  simp only [entryAt, tagAt_modify, hc, Option.bind_some, Option.map_some]
  by_cases hh : h = ⟨i, g⟩
  · have hfind : r.instance? h = some c := by
      rw [instance?_eq_some, hh]
      exact hc
    rw [if_pos ⟨by rw [hfind]; rfl, by rw [hh]⟩, if_pos hh.symm]
    rfl
  · rw [if_neg, if_neg (fun he => hh he.symm)]
    · rfl
    · rintro ⟨hsome, hidx⟩
      obtain ⟨d, hd⟩ := Option.isSome_iff_exists.mp hsome
      rw [instance?_eq_some, hidx, hc] at hd
      simp only [Option.some.injEq, Prod.mk.injEq] at hd
      exact hh (by rw [← hidx, hd.1])

theorem tagAt_mapInstances (r : Roster) (f : Instance → Instance) (j : Nat) :
    (r.mapInstances f).tagAt j = (r.tagAt j).map fun t => (t.1, t.2.1.map f, t.2.2) := by
  simp [tagAt, mapInstances, Function.comp_def]

theorem spells_mapInstances (hs : r.Sound) (f : Instance → Instance) :
    (r.mapInstances f).Spells r.order := by
  refine hs.spells.congr rfl rfl fun j => ?_
  simp [linkAt, mapInstances, Function.comp_def]

theorem sound_mapInstances (hs : r.Sound) (f : Instance → Instance) : (r.mapInstances f).Sound :=
  hs.mapTags (spells_mapInstances hs f) rfl fun i => ⟨f, tagAt_mapInstances r f i⟩

theorem entries_mapInstances (hs : r.Sound) (f : Instance → Instance) :
    (r.mapInstances f).entries = r.entries.map fun e => (e.1, f e.2) := by
  rw [entries_eq (sound_mapInstances hs f), (spells_mapInstances hs f).order_eq, entries_eq hs,
    List.map_filterMap]
  refine List.filterMap_congr fun i hi => ?_
  obtain ⟨g, c, hc⟩ := (hs.mem_order i).mp hi
  simp [entryAt, tagAt_mapInstances, hc]

end Changing

/-! ## Adding -/

/-- The cell taken for a new instance is in no list, and nothing else has changed. -/
structure Taken (r : Roster) (k : Nat) (r' : Roster) : Prop where
  spells : r'.Spells r.order
  lt_size : k < r'.cells.size
  tag : r'.tagAt k = some ((r'.handleAt k).generation, none, false)
  others : ∀ j, j ≠ k → r'.tagAt j = r.tagAt j
  notMem : k ∉ r.order
  free_nodup : r'.free.Nodup
  mem_free : ∀ j, j ∈ r'.free ↔ j ≠ k ∧ j ∈ r.free

theorem taken_takeCell {r : Roster} (hs : r.Sound) : Taken r r.takeCell.1 r.takeCell.2 := by
  cases hf : r.free with
  | cons k rest =>
    have htake : r.takeCell = (k, { r with free := rest }) := by simp [takeCell, hf]
    rw [htake]
    obtain ⟨g, hg⟩ := (hs.mem_free k).mp (by rw [hf]; simp)
    have hnd := hs.free_nodup
    rw [hf, List.nodup_cons] at hnd
    refine ⟨hs.spells.congr rfl rfl fun j => rfl, ?_, ?_, fun j _ => rfl, ?_, hnd.2, ?_⟩
    · obtain ⟨c, hc, -⟩ := Option.map_eq_some_iff.mp hg
      exact (Array.getElem?_eq_some_iff.mp hc).1
    · rw [show Roster.handleAt { r with free := rest } k = ⟨k, g⟩ from handleAt_of_tagAt hg]
      exact hg
    · intro hk
      obtain ⟨g', c, hc⟩ := (hs.mem_order k).mp hk
      rw [hg] at hc
      simp at hc
    · intro j
      rw [hf, List.mem_cons]
      constructor
      · intro hj
        refine ⟨?_, Or.inr hj⟩
        rintro rfl
        exact hnd.1 hj
      · rintro ⟨hne, rfl | hj⟩
        · exact absurd rfl hne
        · exact hj
  | nil =>
    have htake : r.takeCell = (r.cells.size, { r with cells := r.cells.push .fresh }) := by
      simp [takeCell, hf]
    rw [htake]
    have hlt : ∀ j ∈ r.order, j < r.cells.size := fun j hj => hs.spells.lt_size hj
    refine ⟨⟨hs.spells.nodup, hs.spells.head, hs.spells.tail, ?_⟩, ?_, ?_, ?_, ?_, ?_, ?_⟩
    · refine hs.spells.chain.congr fun j hj => ?_
      unfold linkAt
      rw [Array.getElem?_push_lt (hlt j hj), Array.getElem?_eq_getElem (hlt j hj)]
    · simp
    · simp [tagAt, handleAt, Cell.fresh]
    · intro j hj
      simp only [tagAt, Array.getElem?_push]
      rw [if_neg hj]
    · intro hk
      exact Nat.lt_irrefl _ (hlt _ hk)
    · simp [hf]
    · intro j
      simp [hf]

section Adding

variable {r : Roster}

theorem fst_add (r : Roster) (i : Instance) :
    (r.add i).1 = r.takeCell.2.handleAt r.takeCell.1 := rfl

theorem tagAt_add (hs : r.Sound) (i : Instance) (j : Nat) :
    (r.add i).2.tagAt j = if j = r.takeCell.1 then some ((r.add i).1.generation, some i, true)
      else r.tagAt j := by
  have ht := taken_takeCell hs
  unfold add
  rw [tagAt_attachLast]
  split
  · rename_i hj
    subst hj
    exact tagAt_update_self ht.tag fun d h₁ h₂ h₃ => by simp [h₁]
  · rename_i hj
    rw [tagAt_update_of_ne _ (fun he => hj he.symm), ht.others j hj]

theorem spells_add (hs : r.Sound) (i : Instance) :
    (r.add i).2.Spells (r.order ++ [r.takeCell.1]) := by
  have ht := taken_takeCell hs
  refine Spells.attachLast (ht.spells.congr rfl rfl fun j => ?_) ?_ ht.notMem
  · exact linkAt_modify_of_keeps _ j fun c => ⟨rfl, rfl⟩
  · rw [update, Array.size_modify]
    exact ht.lt_size

theorem free_add (r : Roster) (i : Instance) : (r.add i).2.free = r.takeCell.2.free := by
  unfold add attachLast
  dsimp only
  cases ((r.takeCell).2.update (r.takeCell).1
    ({ · with content := some i, linked := true })).tail <;> rfl

theorem sound_add (hs : r.Sound) (i : Instance) : (r.add i).2.Sound := by
  have ht := taken_takeCell hs
  refine Sound.of_spells (spells_add hs i) ?_ ?_ (by rw [free_add]; exact ht.free_nodup) ?_
  · intro j
    rw [List.mem_append, List.mem_singleton, tagAt_add hs, hs.mem_order]
    split
    · rename_i hj
      simp [hj]
    · rename_i hj
      simp [hj]
  · intro j g c l h
    rw [tagAt_add hs] at h
    split at h
    · simp only [Option.some.injEq, Prod.mk.injEq] at h
      simp [← h.2.1, ← h.2.2]
    · exact hs.content j g c l h
  · intro j
    rw [free_add, ht.mem_free, hs.mem_free, tagAt_add hs]
    split
    · rename_i hj
      simp [hj]
    · rename_i hj
      simp [hj]

theorem entries_add (hs : r.Sound) (i : Instance) :
    (r.add i).2.entries = r.entries ++ [((r.add i).1, i)] := by
  have ht := taken_takeCell hs
  rw [entries_eq (sound_add hs i), (spells_add hs i).order_eq, List.filterMap_append, entries_eq hs]
  congr 1
  · refine List.filterMap_congr fun j hj => ?_
    have hne : j ≠ r.takeCell.1 := by
      rintro rfl
      exact ht.notMem hj
    simp only [entryAt, tagAt_add hs, if_neg hne]
  · simp only [List.filterMap_cons, entryAt, tagAt_add hs, if_true, Option.bind_some,
      Option.map_some, List.filterMap_nil]
    rfl

/-- A new handle differs from those there are. -/
theorem fst_add_notMem (hs : r.Sound) (i : Instance) : (r.add i).1 ∉ r.entries.map Prod.fst := by
  have h := nodup_keys (sound_add hs i)
  rw [entries_add hs, List.map_append, List.nodup_append] at h
  intro hmem
  exact h.2.2 _ hmem _ (by simp) rfl

end Adding

/-! ## Removing and reordering -/

section Reordering

variable {r : Roster} {h : Handle}

theorem index_of_mem_filterMap {xs : List Nat} {e : Handle × Instance}
    (he : e ∈ xs.filterMap r.entryAt) : e.1.index ∈ xs := by
  obtain ⟨j, hj, hje⟩ := List.mem_filterMap.mp he
  cases ht : r.tagAt j with
  | none => simp [entryAt, ht] at hje
  | some t =>
    simp only [entryAt, ht, Option.bind_some, Option.map_eq_some_iff] at hje
    obtain ⟨c, -, rfl⟩ := hje
    exact hj

theorem ne_of_index_notMem {xs : List Nat} (hx : h.index ∉ xs) :
    ∀ e ∈ xs.filterMap r.entryAt, e.1 ≠ h := by
  rintro e he rfl
  exact hx (index_of_mem_filterMap he)

/-- Entries other than that of a handle, and the entry of the handle. -/
theorem filter_split {A B : List (Handle × Instance)} {i : Instance} (hA : ∀ e ∈ A, e.1 ≠ h)
    (hB : ∀ e ∈ B, e.1 ≠ h) :
    (A ++ (h, i) :: B).filter (·.1 != h) = A ++ B ∧
      (A ++ (h, i) :: B).filter (·.1 == h) = [(h, i)] := by
  have hA' : A.filter (·.1 != h) = A := List.filter_eq_self.mpr fun e he => by simp [hA e he]
  have hB' : B.filter (·.1 != h) = B := List.filter_eq_self.mpr fun e he => by simp [hB e he]
  have hA'' : A.filter (·.1 == h) = [] := List.filter_eq_nil_iff.mpr fun e he => by simp [hA e he]
  have hB'' : B.filter (·.1 == h) = [] := List.filter_eq_nil_iff.mpr fun e he => by simp [hB e he]
  simp [List.filter_append, hA', hB', hA'', hB'']

theorem free_detach (r : Roster) (i : Nat) : (r.detach i).free = r.free := by
  unfold detach
  dsimp only
  cases (r.cells[i]?).bind Cell.prev <;> cases (r.cells[i]?).bind Cell.next <;> rfl

theorem free_attachLast (r : Roster) (i : Nat) : (r.attachLast i).free = r.free := by
  unfold attachLast
  cases r.tail <;> rfl

theorem free_attachFirst (r : Roster) (i : Nat) : (r.attachFirst i).free = r.free := by
  unfold attachFirst
  cases r.head <;> rfl

theorem size_detach (r : Roster) (i : Nat) : (r.detach i).cells.size = r.cells.size := by
  unfold detach
  dsimp only
  cases (r.cells[i]?).bind Cell.prev <;> cases (r.cells[i]?).bind Cell.next <;>
    simp [linkNext, linkPrev, update]

theorem entries_reorder {r' : Roster} {xs : List Nat} (hs' : r'.Sound) (hx : r'.Spells xs)
    (htag : ∀ i, r'.tagAt i = r.tagAt i) : r'.entries = xs.filterMap r.entryAt := by
  rw [entries_eq hs', hx.order_eq]
  refine List.filterMap_congr fun i _ => ?_
  simp only [entryAt, htag]

variable (hs : r.Sound)

include hs

theorem cell?_eq_none_iff : r.cell? h = none ↔ r.instance? h = none := by
  constructor
  · intro hn
    simp [instance?, hn]
  · intro hn
    cases hc : r.cell? h with
    | none => rfl
    | some c =>
      obtain ⟨hcell, hmark⟩ := Option.filter_eq_some_iff.mp hc
      simp only [Bool.and_eq_true, beq_iff_eq] at hmark
      have htag : r.tagAt h.index = some (h.generation, c.content, true) := by
        rw [tagAt, hcell, Option.map_some, hmark.1, hmark.2]
      have hcontent := hs.content _ _ _ _ htag
      obtain ⟨i, hi⟩ := Option.isSome_iff_exists.mp hcontent.symm
      rw [hi, ← instance?_eq_some, hn] at htag
      simp at htag

theorem isSome_cell? : (r.cell? h).isSome = (r.instance? h).isSome := by
  have := cell?_eq_none_iff hs (h := h)
  cases hc : r.cell? h <;> cases hi : r.instance? h <;> simp_all

/-- An entry splits the order at its cell and the entries at itself. -/
theorem exists_split {i : Instance} (hi : r.instance? h = some i) :
    ∃ xs ys, r.order = xs ++ h.index :: ys ∧ h.index ∉ xs ∧ h.index ∉ ys ∧
      r.entries = xs.filterMap r.entryAt ++ (h, i) :: ys.filterMap r.entryAt := by
  have htag := instance?_eq_some.mp hi
  obtain ⟨xs, ys, ho⟩ := List.append_of_mem ((hs.mem_order h.index).mpr ⟨_, _, htag⟩)
  have hnd := hs.spells.nodup
  rw [ho] at hnd
  obtain ⟨-, hndi, hdis⟩ := List.nodup_append.mp hnd
  refine ⟨xs, ys, ho, fun hmem => hdis _ hmem _ (by simp) rfl, (List.nodup_cons.mp hndi).1, ?_⟩
  rw [entries_eq hs, ho, List.filterMap_append, List.filterMap_cons]
  simp [entryAt, htag]

/-- A handle that finds nothing is in no entry. -/
theorem filter_of_none (hn : r.instance? h = none) :
    r.entries.filter (·.1 != h) = r.entries ∧ r.entries.filter (·.1 == h) = [] := by
  have hne : ∀ e ∈ r.entries, e.1 ≠ h := by
    rintro ⟨k, i⟩ he rfl
    rw [mem_entries_iff hs, hn] at he
    simp at he
  exact ⟨List.filter_eq_self.mpr fun e he => by simp [hne e he],
    List.filter_eq_nil_iff.mpr fun e he => by simp [hne e he]⟩

/-- A roster with the same cells and free list in another order. -/
theorem Sound.reorder {r' : Roster} {xs : List Nat} (hx : r'.Spells xs)
    (hmem : ∀ i, i ∈ xs ↔ i ∈ r.order) (htag : ∀ i, r'.tagAt i = r.tagAt i)
    (hfree : r'.free = r.free) : r'.Sound := by
  refine Sound.of_spells hx ?_ ?_ (hfree ▸ hs.free_nodup) ?_
  · intro i
    rw [hmem, hs.mem_order, htag]
  · intro i g c l h
    exact hs.content i g c l (htag i ▸ h)
  · intro i
    rw [hfree, hs.mem_free, htag]

theorem exists_cell? {i : Instance} (hi : r.instance? h = some i) :
    ∃ c, r.cell? h = some c := by
  rw [← Option.isSome_iff_exists, isSome_cell? hs, hi, Option.isSome_some]

/-- With the cell of an entry detached, the order spells the other entries. -/
theorem exists_detached {i : Instance} (hi : r.instance? h = some i) :
    ∃ zs, (r.detach h.index).Spells zs ∧ h.index < (r.detach h.index).cells.size ∧
      h.index ∉ zs ∧ (∀ j, j ∈ r.order ↔ j = h.index ∨ j ∈ zs) ∧
      zs.filterMap r.entryAt = r.entries.filter (·.1 != h) ∧
      [h.index].filterMap r.entryAt = r.entries.filter (·.1 == h) := by
  obtain ⟨xs, ys, ho, hxs, hys, he⟩ := exists_split hs hi
  have hsp := hs.spells
  rw [ho] at hsp
  have hf := filter_split (i := i) (ne_of_index_notMem (r := r) hxs)
    (ne_of_index_notMem (r := r) hys)
  refine ⟨xs ++ ys, hsp.detach, ?_, by simp [hxs, hys], fun j => ?_, ?_, ?_⟩
  · rw [size_detach]
    exact hsp.lt_size (by simp)
  · rw [ho]
    simp
    tauto
  · rw [he, hf.1, List.filterMap_append]
  · rw [he, hf.2]
    simp [entryAt, instance?_eq_some.mp hi]

theorem putLast_of_some {i : Instance} (hi : r.instance? h = some i) :
    r.putLast h = (r.detach h.index).attachLast h.index := by
  obtain ⟨c, hc⟩ := exists_cell? hs hi
  simp [putLast, hc]

theorem putFirst_of_some {i : Instance} (hi : r.instance? h = some i) :
    r.putFirst h = (r.detach h.index).attachFirst h.index := by
  obtain ⟨c, hc⟩ := exists_cell? hs hi
  simp [putFirst, hc]

theorem sound_putLast (h : Handle) :
    (r.putLast h).Sound ∧ (r.putLast h).entries =
      r.entries.filter (·.1 != h) ++ r.entries.filter (·.1 == h) := by
  cases hi : r.instance? h with
  | none =>
    have hp : r.putLast h = r := by simp [putLast, (cell?_eq_none_iff hs).mpr hi]
    rw [hp, (filter_of_none hs hi).1, (filter_of_none hs hi).2, List.append_nil]
    exact ⟨hs, rfl⟩
  | some i =>
    obtain ⟨zs, hzs, hlt, hnot, hmem, hrest, hself⟩ := exists_detached hs hi
    have hx : (r.putLast h).Spells (zs ++ [h.index]) := by
      rw [putLast_of_some hs hi]
      exact hzs.attachLast hlt hnot
    have htag : ∀ j, (r.putLast h).tagAt j = r.tagAt j := fun j => by
      rw [putLast_of_some hs hi, tagAt_attachLast, tagAt_detach]
    have hs' := hs.reorder hx (fun j => by rw [hmem]; simp; tauto) htag
      (by rw [putLast_of_some hs hi, free_attachLast, free_detach])
    refine ⟨hs', ?_⟩
    rw [entries_reorder hs' hx htag, List.filterMap_append, hrest, hself]

theorem sound_putFirst (h : Handle) :
    (r.putFirst h).Sound ∧ (r.putFirst h).entries =
      r.entries.filter (·.1 == h) ++ r.entries.filter (·.1 != h) := by
  cases hi : r.instance? h with
  | none =>
    have hp : r.putFirst h = r := by simp [putFirst, (cell?_eq_none_iff hs).mpr hi]
    rw [hp, (filter_of_none hs hi).1, (filter_of_none hs hi).2, List.nil_append]
    exact ⟨hs, rfl⟩
  | some i =>
    obtain ⟨zs, hzs, hlt, hnot, hmem, hrest, hself⟩ := exists_detached hs hi
    have hx : (r.putFirst h).Spells ([h.index] ++ zs) := by
      rw [putFirst_of_some hs hi]
      exact hzs.attachFirst hlt hnot
    have htag : ∀ j, (r.putFirst h).tagAt j = r.tagAt j := fun j => by
      rw [putFirst_of_some hs hi, tagAt_attachFirst, tagAt_detach]
    have hs' := hs.reorder hx (fun j => by rw [hmem]; simp) htag
      (by rw [putFirst_of_some hs hi, free_attachFirst, free_detach])
    refine ⟨hs', ?_⟩
    rw [entries_reorder hs' hx htag, List.filterMap_append, hself, hrest]

theorem tagAt_erase {i : Instance} (hi : r.instance? h = some i) (j : Nat) :
    (r.erase h).tagAt j =
      if j = h.index then some (h.generation + 1, none, false) else r.tagAt j := by
  obtain ⟨c, hc⟩ := exists_cell? hs hi
  have hshape : (r.erase h).tagAt j = ((r.update h.index vacate).detach h.index).tagAt j := by
    simp [erase, hc, tagAt]
  rw [hshape, tagAt_detach]
  split
  · rename_i hj
    subst hj
    exact tagAt_update_self (instance?_eq_some.mp hi) fun d h₁ _ _ => by simp [vacate, h₁]
  · rename_i hj
    exact tagAt_update_of_ne _ fun he => hj he.symm

theorem sound_erase (h : Handle) :
    (r.erase h).Sound ∧ (r.erase h).entries = r.entries.filter (·.1 != h) := by
  cases hi : r.instance? h with
  | none =>
    have hp : r.erase h = r := by simp [erase, (cell?_eq_none_iff hs).mpr hi]
    rw [hp, (filter_of_none hs hi).1]
    exact ⟨hs, rfl⟩
  | some i =>
    obtain ⟨xs, ys, ho, hxs, hys, he⟩ := exists_split hs hi
    obtain ⟨c, hc⟩ := exists_cell? hs hi
    have hsp : (r.update h.index vacate).Spells (xs ++ h.index :: ys) := by
      rw [← ho]
      exact hs.spells.congr rfl rfl fun j => linkAt_modify_of_keeps _ j fun c => ⟨rfl, rfl⟩
    have hx : (r.erase h).Spells (xs ++ ys) := by
      simp only [erase, hc]
      exact hsp.detach.congr rfl rfl fun j => rfl
    have hfree : (r.erase h).free = h.index :: r.free := by
      simp only [erase, hc, free_detach, update]
    have htag := tagAt_erase hs hi
    have hs' : (r.erase h).Sound := by
      refine Sound.of_spells hx ?_ ?_ ?_ ?_
      · intro j
        have hmem := hs.mem_order j
        rw [ho] at hmem
        rw [htag]
        split
        · rename_i hj
          simp [hj, hxs, hys]
        · rename_i hj
          rw [← hmem]
          simp [hj]
      · intro j g c l hj
        rw [htag] at hj
        split at hj
        · simp only [Option.some.injEq, Prod.mk.injEq] at hj
          simp [← hj.2.1, ← hj.2.2]
        · exact hs.content j g c l hj
      · rw [hfree, List.nodup_cons]
        refine ⟨fun hmem => ?_, hs.free_nodup⟩
        obtain ⟨g, hg⟩ := (hs.mem_free _).mp hmem
        rw [instance?_eq_some.mp hi] at hg
        simp at hg
      · intro j
        rw [hfree, List.mem_cons, hs.mem_free, htag]
        split
        · rename_i hj
          simp [hj]
        · rename_i hj
          simp [hj]
    refine ⟨hs', ?_⟩
    rw [entries_eq hs', hx.order_eq, he,
      (filter_split (i := i) (ne_of_index_notMem (r := r) hxs) (ne_of_index_notMem hys)).1,
      ← List.filterMap_append]
    refine List.filterMap_congr fun j hj => ?_
    have hne : j ≠ h.index := by
      rintro rfl
      rcases List.mem_append.mp hj with hj | hj
      · exact hxs hj
      · exact hys hj
    simp only [entryAt, htag, if_neg hne]

end Reordering

/-! ## Finding instances after a change -/

section Finding

variable {r : Roster}

/-- What a handle finds follows from the entries. -/
theorem instance?_eq_of_mem_iff {r' : Roster} (hs' : r'.Sound) {k : Handle}
    {o : Option Instance} (h : ∀ i, (k, i) ∈ r'.entries ↔ o = some i) : r'.instance? k = o :=
  Option.ext fun i => by rw [← mem_entries_iff hs', h i]

variable (hs : r.Sound)

include hs

theorem instance?_modify (h k : Handle) (f : Instance → Instance) :
    (r.modify h f).instance? k = if k = h then (r.instance? k).map f else r.instance? k := by
  refine instance?_eq_of_mem_iff (sound_modify hs h f) fun i => ?_
  rw [entries_modify hs, List.mem_map]
  constructor
  · rintro ⟨⟨k', j⟩, hj, he⟩
    rw [mem_entries_iff hs] at hj
    by_cases hk : k' = h
    · simp only [hk, if_true, Prod.mk.injEq] at he
      rw [← he.1, if_pos rfl, ← hk, hj, ← he.2]
      rfl
    · simp only [hk, if_false, Prod.mk.injEq] at he
      rw [← he.1, if_neg hk, hj, he.2]
  · intro hi
    by_cases hk : k = h
    · rw [if_pos hk] at hi
      obtain ⟨j, hj, rfl⟩ := Option.map_eq_some_iff.mp hi
      exact ⟨(k, j), (mem_entries_iff hs).mpr hj, by simp [hk]⟩
    · rw [if_neg hk] at hi
      exact ⟨(k, i), (mem_entries_iff hs).mpr hi, by simp [hk]⟩

theorem instance?_mapInstances (k : Handle) (f : Instance → Instance) :
    (r.mapInstances f).instance? k = (r.instance? k).map f := by
  refine instance?_eq_of_mem_iff (sound_mapInstances hs f) fun i => ?_
  rw [entries_mapInstances hs, List.mem_map, Option.map_eq_some_iff]
  constructor
  · rintro ⟨⟨k', j⟩, hj, he⟩
    simp only [Prod.mk.injEq] at he
    exact ⟨j, he.1 ▸ (mem_entries_iff hs).mp hj, he.2⟩
  · rintro ⟨j, hj, rfl⟩
    exact ⟨(k, j), (mem_entries_iff hs).mpr hj, rfl⟩

theorem instance?_fst_add (i : Instance) : r.instance? (r.add i).1 = none := by
  cases hj : r.instance? (r.add i).1 with
  | none => rfl
  | some j =>
    exact absurd (List.mem_map_of_mem ((mem_entries_iff hs).mpr hj)) (fst_add_notMem hs i)

theorem instance?_add (i : Instance) (k : Handle) :
    (r.add i).2.instance? k = if k = (r.add i).1 then some i else r.instance? k := by
  refine instance?_eq_of_mem_iff (sound_add hs i) fun j => ?_
  rw [entries_add hs, List.mem_append, List.mem_singleton, mem_entries_iff hs, Prod.mk.injEq]
  split
  · rename_i hk
    rw [hk, instance?_fst_add hs]
    simp [eq_comm]
  · rename_i hk
    simp [hk]

theorem instance?_erase (h k : Handle) :
    (r.erase h).instance? k = if k = h then none else r.instance? k := by
  refine instance?_eq_of_mem_iff (sound_erase hs h).1 fun j => ?_
  rw [(sound_erase hs h).2, List.mem_filter, mem_entries_iff hs]
  split
  · rename_i hk
    simp [hk]
  · rename_i hk
    simp [hk]

/-- An instance that is put first or last is found where it was. -/
theorem sound_put {h : Handle} {r' : Roster} (hr : r' = r.putFirst h ∨ r' = r.putLast h) :
    r'.Sound ∧ ∀ k, r'.instance? k = r.instance? k := by
  have hput : r'.Sound ∧ ∀ e, e ∈ r'.entries ↔ e ∈ r.entries := by
    rcases hr with rfl | rfl
    · obtain ⟨hs', hentries⟩ := sound_putFirst hs h
      exact ⟨hs', fun e => by by_cases he : e.1 = h <;> simp [hentries, he]⟩
    · obtain ⟨hs', hentries⟩ := sound_putLast hs h
      exact ⟨hs', fun e => by by_cases he : e.1 = h <;> simp [hentries, he]⟩
  refine ⟨hput.1, fun k => instance?_eq_of_mem_iff hput.1 fun j => ?_⟩
  rw [hput.2, mem_entries_iff hs]

/-- Removing instances one after the other leaves the others. -/
theorem sound_foldl_erase (handles : List Handle) :
    (handles.foldl erase r).Sound ∧
      (handles.foldl erase r).entries = r.entries.filter fun e => !handles.contains e.1 := by
  induction handles generalizing r with
  | nil => exact ⟨hs, by simp⟩
  | cons h rest ih =>
    obtain ⟨hs', he⟩ := sound_erase hs h
    obtain ⟨hs'', he'⟩ := ih hs'
    refine ⟨hs'', ?_⟩
    rw [List.foldl_cons, he', he, List.filter_filter]
    refine List.filter_congr fun e _ => ?_
    rw [List.contains_cons, Bool.not_or, Bool.and_comm]
    rfl

theorem sound_clear : r.clear.Sound ∧ r.clear.entries = [] := by
  obtain ⟨hs', he⟩ := sound_foldl_erase hs r.handles
  refine ⟨hs', he.trans (List.filter_eq_nil_iff.mpr fun e hmem => ?_)⟩
  rw [handles_eq hs]
  simpa using ⟨e.2, hmem⟩

theorem instance?_clear (h : Handle) : r.clear.instance? h = none := by
  obtain ⟨hs', he⟩ := sound_clear hs
  refine Option.eq_none_iff_forall_ne_some.mpr fun i hi => ?_
  have hmem := (mem_entries_iff hs').mpr hi
  rw [he] at hmem
  exact List.not_mem_nil hmem

end Finding

end LevelScript.Roster
