import LevelScript.Level.Basic
import LevelScript.Proofs.Roster.View

/-!
# What a level holds

How the operations of a level change its instances, as equations about `Roster.entries` and about
what a handle finds. Nothing here is about cells or links any more.

* `wake_spec`: those that waited for a script come last, running, in their order.
* `instance?_remove`, `instance?_add`, `instance?_promote`: what a handle finds afterwards.
-/

namespace LevelScript.Level

variable {l : Level}

/-- The instance runs. -/
def running (i : Instance) : Instance := { i with status := .running }

/-! ## Waking -/

theorem awaken_eq (l : Level) (h : Handle) :
    l.awaken h = { l with roster := (l.roster.modify h running).putLast h } := rfl

theorem foldl_awaken_eq (l : Level) (handles : List Handle) :
    handles.foldl awaken l = { l with roster := (handles.foldl awaken l).roster } := by
  induction handles generalizing l with
  | nil => rfl
  | cons h rest ih => exact ih (l.awaken h)

/-- Whether an entry's instance waits for the end of a script. -/
def waitsFor (script : Int32) (e : Handle × Instance) : Bool := e.2.status == .scriptWait script

theorem wake_eq (l : Level) (script : Int32) :
    l.wake script = { l with roster := (l.wake script).roster } :=
  foldl_awaken_eq l _

/-- What waking does to an instance. -/
def woken (script : Int32) (i : Instance) : Instance :=
  if i.status = .scriptWait script then running i else i

section Waking

variable (hs : l.roster.Sound)

include hs

theorem sound_awaken (h : Handle) : (l.awaken h).roster.Sound :=
  (Roster.sound_putLast (Roster.sound_modify hs h _) h).1

theorem instance?_awaken (h k : Handle) :
    (l.awaken h).instance? k = if k = h then (l.instance? k).map running else l.instance? k := by
  rw [awaken_eq, instance?, (Roster.sound_put (Roster.sound_modify hs h _) (.inr rfl)).2,
    Roster.instance?_modify hs]
  rfl

theorem entries_awaken {h : Handle} {i : Instance} (hi : l.instance? h = some i) :
    (l.awaken h).roster.entries = l.roster.entries.filter (·.1 != h) ++ [(h, running i)] := by
  obtain ⟨_, _, -, hx, hy, he⟩ := Roster.exists_split hs hi
  have hA := Roster.ne_of_index_notMem (r := l.roster) hx
  have hB := Roster.ne_of_index_notMem (r := l.roster) hy
  have hmap : ∀ xs : List (Handle × Instance), (∀ e ∈ xs, e.1 ≠ h) →
      xs.map (fun e => if e.1 = h then (e.1, running e.2) else e) = xs := by
    intro xs hxs
    conv_rhs => rw [← List.map_id xs]
    exact List.map_congr_left fun e hmem => if_neg (hxs e hmem)
  rw [awaken_eq, (Roster.sound_putLast (Roster.sound_modify hs h _) h).2, Roster.entries_modify hs,
    he, List.map_append, List.map_cons, hmap _ hA, hmap _ hB]
  simp only [if_true]
  rw [(Roster.filter_split hA hB).1, (Roster.filter_split hA hB).2, (Roster.filter_split hA hB).1]

/-- Waking instances one after the other puts them last, in this order. -/
theorem foldl_awaken {hs' : List Handle} (hnd : hs'.Nodup)
    (hlive : ∀ h ∈ hs', ∃ i, l.instance? h = some i) :
    (hs'.foldl awaken l).roster.Sound ∧
    (hs'.foldl awaken l).roster.entries =
      l.roster.entries.filter (fun e => !hs'.contains e.1) ++
        hs'.filterMap (fun h => (l.instance? h).map fun i => (h, running i)) := by
  induction hs' generalizing l with
  | nil => exact ⟨hs, by simp⟩
  | cons h rest ih =>
    obtain ⟨hnot, hnd⟩ := List.nodup_cons.mp hnd
    obtain ⟨i, hi⟩ := hlive h (by simp)
    have hother : ∀ k ∈ rest, (l.awaken h).instance? k = l.instance? k := fun k hk => by
      rw [instance?_awaken hs, if_neg]
      rintro rfl
      exact hnot hk
    obtain ⟨hs₂, he⟩ := ih (sound_awaken hs h) hnd fun k hk => by
      rw [hother k hk]
      exact hlive k (by simp [hk])
    refine ⟨hs₂, ?_⟩
    rw [List.foldl_cons, he, entries_awaken hs hi, List.filter_append, List.filter_filter,
      List.filterMap_cons, hi]
    have hlast : [(h, running i)].filter (fun e => !rest.contains e.1) = [(h, running i)] := by
      simp [hnot]
    rw [hlast, List.append_assoc]
    congr 1
    · refine List.filter_congr fun e _ => ?_
      rw [List.contains_cons, Bool.not_or, Bool.and_comm]
      rfl
    · rw [Option.map_some, List.singleton_append]
      congr 1
      exact List.filterMap_congr fun k hk => by rw [hother k hk]

theorem handlesWhere_waits (p : Instance → Bool) :
    (l.roster.handlesWhere p).Nodup ∧
      ∀ h ∈ l.roster.handlesWhere p, ∃ i, l.instance? h = some i ∧ p i = true := by
  refine ⟨(Roster.nodup_keys hs).sublist (List.filter_sublist.map _), fun h hh => ?_⟩
  obtain ⟨⟨k, i⟩, hi, rfl⟩ := List.mem_map.mp hh
  obtain ⟨hmem, hp⟩ := List.mem_filter.mp hi
  exact ⟨i, (Roster.mem_entries_iff hs).mp hmem, hp⟩

/-- Those that waited for a script come last, running, in their order. -/
theorem wake_spec (script : Int32) :
    (l.wake script).roster.Sound ∧
    (l.wake script).roster.entries =
      l.roster.entries.filter (fun e => !waitsFor script e) ++
        (l.roster.entries.filter (waitsFor script)).map (fun e => (e.1, running e.2)) := by
  obtain ⟨hnd, hlive⟩ := handlesWhere_waits hs fun i => i.status == .scriptWait script
  obtain ⟨hs', he⟩ := foldl_awaken hs hnd fun h hh => (hlive h hh).imp fun _ => And.left
  refine ⟨hs', he.trans ?_⟩
  congr 1
  · refine List.filter_congr fun e hmem => ?_
    congr 1
    rw [Bool.eq_iff_iff, List.contains_iff_mem, Roster.handlesWhere, List.mem_map]
    constructor
    · rintro ⟨⟨k, j⟩, hj, rfl : k = e.1⟩
      obtain ⟨hj, hw⟩ := List.mem_filter.mp hj
      have hfind := (Roster.mem_entries_iff hs).mp hj
      rw [(Roster.mem_entries_iff hs).mp hmem] at hfind
      rw [waitsFor, Option.some.inj hfind]
      exact hw
    · intro hw
      exact ⟨e, List.mem_filter.mpr ⟨hmem, hw⟩, rfl⟩
  · rw [Roster.handlesWhere, List.filterMap_map]
    conv_rhs => rw [← List.filterMap_eq_map]
    refine List.filterMap_congr fun e he => ?_
    have := (Roster.mem_entries_iff hs).mp (List.mem_filter.mp he).1
    simp [instance?, this]

theorem instance?_wake (script : Int32) (k : Handle) :
    (l.wake script).instance? k = (l.instance? k).map (woken script) := by
  obtain ⟨hs', he⟩ := wake_spec hs script
  refine Roster.instance?_eq_of_mem_iff hs' fun i => ?_
  rw [he, List.mem_append, List.mem_map, Option.map_eq_some_iff]
  constructor
  · rintro (h | ⟨⟨k', j⟩, hj, he⟩)
    · obtain ⟨hmem, hw⟩ := List.mem_filter.mp h
      refine ⟨i, (Roster.mem_entries_iff hs).mp hmem, ?_⟩
      rw [woken, if_neg (by simpa [waitsFor] using hw)]
    · obtain ⟨hmem, hw⟩ := List.mem_filter.mp hj
      simp only [Prod.mk.injEq] at he
      rw [← he.1, ← he.2]
      refine ⟨j, (Roster.mem_entries_iff hs).mp hmem, ?_⟩
      rw [woken, if_pos (by simpa [waitsFor] using hw)]
  · rintro ⟨j, hj, rfl⟩
    have hmem := (Roster.mem_entries_iff hs).mpr hj
    by_cases hw : j.status = .scriptWait script
    · refine .inr ⟨(k, j), List.mem_filter.mpr ⟨hmem, by simp [waitsFor, hw]⟩, ?_⟩
      rw [woken, if_pos hw]
    · refine .inl (List.mem_filter.mpr ⟨?_, ?_⟩)
      · rwa [woken, if_neg hw]
      · simp [waitsFor, woken, hw]

end Waking

/-! ## Instances come and go -/

section Changing

theorem remove_of_none {h : Handle} (hn : l.instance? h = none) : l.remove h = l := by
  rw [remove, hn]

/-- The level without an instance, before those that waited for it are woken. -/
def without (l : Level) (h : Handle) (i : Instance) : Level :=
  { l with
    roster := l.roster.erase h
    tracked := if l.find? i.number = some h then l.tracked.forget i.number else l.tracked }

theorem remove_eq {h : Handle} {i : Instance} (hi : l.instance? h = some i) :
    l.remove h = (l.without h i).wake i.number := by
  rw [remove, hi]
  rfl

variable {h : Handle} {i : Instance}

theorem remove_frame (hi : l.instance? h = some i) :
    l.remove h = { l.without h i with roster := (l.remove h).roster } := by
  rw [remove_eq hi]
  exact wake_eq _ _

/-- Removing an instance changes the roster and the registry only. -/
theorem remove_keeps (l : Level) (h : Handle) :
    l.remove h = { l with roster := (l.remove h).roster, tracked := (l.remove h).tracked } := by
  cases hi : l.instance? h with
  | none => rw [remove_of_none hi]
  | some i =>
    have htracked : (l.remove h).tracked = (l.without h i).tracked := by rw [remove_frame hi]
    rw [htracked]
    exact remove_frame hi

/-- What starting a script does to an instance that waits for the start. -/
def awaiting (script : Int32) (i : Instance) : Instance :=
  { i with status := promoted script i.status }

/-- What adding an instance does to those there are and to itself. -/
def settled (script : Int32) (always : Bool) : Instance → Instance :=
  if always then id else awaiting script

theorem fst_add (l : Level) (i : Instance) (always : Bool) :
    (l.add i always).1 = (l.roster.add i).1 := by
  unfold add
  dsimp only
  split <;> rfl

theorem add_frame (l : Level) (i : Instance) (always : Bool) :
    (l.add i always).2 = { l with
      roster := (l.add i always).2.roster
      tracked := if always then l.tracked else l.tracked.track i.number (l.add i always).1 } := by
  unfold add
  dsimp only
  cases always <;> rfl

theorem setStatus_eq (l : Level) (script : Int32) (st : Status) :
    (l.setStatus script st).2 = l ∨ ∃ h i, l.find? script = some h ∧ l.instance? h = some i ∧
      i.status.isTerminal = false ∧ (l.setStatus script st).2 = { l with
        roster := l.roster.modify h ({ · with status := st })
        reapPending := l.reapPending || st.isTerminal } := by
  unfold setStatus
  split
  · exact .inl rfl
  · rename_i h hf
    split
    · exact .inl rfl
    · rename_i i hi
      split
      · exact .inl rfl
      · rename_i ht
        exact .inr ⟨h, i, hf, hi, by simpa using ht, rfl⟩

variable (hs : l.roster.Sound)

include hs

theorem remove_spec (hi : l.instance? h = some i) :
    (l.remove h).roster.Sound ∧
    (l.remove h).roster.entries =
      (l.roster.entries.filter (·.1 != h)).filter (fun e => !waitsFor i.number e) ++
        ((l.roster.entries.filter (·.1 != h)).filter (waitsFor i.number)).map
          (fun e => (e.1, running e.2)) := by
  have hs' : (l.without h i).roster.Sound := (Roster.sound_erase hs h).1
  have he : (l.without h i).roster.entries = l.roster.entries.filter (·.1 != h) :=
    (Roster.sound_erase hs h).2
  rw [remove_eq hi, ← he]
  exact wake_spec hs' i.number

theorem instance?_remove (hi : l.instance? h = some i) (k : Handle) :
    (l.remove h).instance? k =
      if k = h then none else (l.instance? k).map (woken i.number) := by
  have hs' : (l.without h i).roster.Sound := (Roster.sound_erase hs h).1
  rw [remove_eq hi, instance?_wake hs']
  have he : (l.without h i).instance? k = if k = h then none else l.instance? k :=
    Roster.instance?_erase hs h k
  rw [he]
  split <;> rfl

theorem sound_promote (script : Int32) : (l.promote script).roster.Sound :=
  Roster.sound_mapInstances hs _

theorem instance?_promote (script : Int32) (k : Handle) :
    (l.promote script).instance? k = (l.instance? k).map (awaiting script) :=
  Roster.instance?_mapInstances hs k _

theorem entries_promote (script : Int32) :
    (l.promote script).roster.entries =
      l.roster.entries.map fun e => (e.1, awaiting script e.2) :=
  Roster.entries_mapInstances hs _

theorem add_spec (i : Instance) (always : Bool) :
    (l.add i always).2.roster.Sound ∧
    (l.add i always).2.roster.entries =
      (l.roster.entries ++ [((l.add i always).1, i)]).map
        (fun e => (e.1, settled i.number always e.2)) := by
  rw [fst_add]
  unfold add settled
  dsimp only
  cases always with
  | true =>
    refine ⟨Roster.sound_add hs i, ?_⟩
    simpa using Roster.entries_add hs i
  | false =>
    refine ⟨sound_promote (Roster.sound_add hs i) _, ?_⟩
    rw [← Roster.entries_add hs i]
    exact entries_promote (Roster.sound_add hs i) _

theorem instance?_add (i : Instance) (always : Bool) (k : Handle) :
    (l.add i always).2.instance? k =
      (if k = (l.add i always).1 then some i else l.instance? k).map
        (settled i.number always) := by
  rw [fst_add, instance?, instance?, ← Roster.instance?_add hs]
  unfold add settled
  dsimp only
  cases always with
  | true => simp
  | false => exact instance?_promote (Roster.sound_add hs i) _ k

end Changing

end LevelScript.Level
