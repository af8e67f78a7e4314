import LevelScript.Proofs.Level.Steps
import LevelScript.Snapshot.Basic

/-!
# What one act can change

Every act changes the instances and the registry of a level in one of a few ways. What holds in
all reachable levels is proved from these, without looking at acts again.

* `Level.Sound`: the roster is sound, and each script is tracked at most once, by a handle of a
  living instance with its number.
* `Level.Change`: the ways in which instances and registry change.
* `change_act`: each act is one of them; `sound_act`: each act keeps the level sound.
-/

namespace LevelScript

/-! ## Registries -/

namespace Registry

variable {r : Registry}

theorem find?_cons (e : Int32 × Handle) (r : Registry) (m : Int32) :
    find? (e :: r) m = if m = e.1 then some e.2 else r.find? m := by
  obtain ⟨n, h⟩ := e
  simp only [find?, List.lookup_cons]
  by_cases hm : m = n
  · simp [hm]
  · rw [beq_eq_false_iff_ne.mpr hm, if_neg hm]

theorem find?_forget (r : Registry) (n m : Int32) :
    (r.forget n).find? m = if m = n then none else r.find? m := by
  induction r with
  | nil => simp [forget, find?]
  | cons e rest ih =>
    have hcons : forget (e :: rest) n = if e.1 != n then e :: forget rest n else forget rest n :=
      List.filter_cons
    rw [hcons, find?_cons]
    by_cases he : e.1 = n
    · rw [if_neg (by simp [he]), ih, he]
      split <;> rfl
    · rw [if_pos (by simpa using he), find?_cons, ih]
      by_cases hm : m = e.1
      · rw [if_pos hm, if_pos hm, if_neg (by rw [hm]; exact he)]
      · rw [if_neg hm, if_neg hm]

theorem find?_track (r : Registry) (n m : Int32) (h : Handle) :
    (r.track n h).find? m = if m = n then some h else r.find? m := by
  rw [track, find?_cons, find?_forget]
  split <;> rfl

theorem mem_forget {n : Int32} {e : Int32 × Handle} : e ∈ r.forget n ↔ e ∈ r ∧ e.1 ≠ n := by
  simp [forget, List.mem_filter]

theorem nodup_forget (h : (r.map Prod.fst).Nodup) (n : Int32) :
    ((r.forget n).map Prod.fst).Nodup :=
  h.sublist (List.filter_sublist.map _)

theorem nodup_track (hr : (r.map Prod.fst).Nodup) (n : Int32) (h : Handle) :
    ((r.track n h).map Prod.fst).Nodup := by
  rw [track, List.map_cons, List.nodup_cons]
  refine ⟨fun hmem => ?_, nodup_forget hr n⟩
  obtain ⟨e, he, heq⟩ := List.mem_map.mp hmem
  exact (mem_forget.mp he).2 heq

theorem find?_eq_some_iff (h : (r.map Prod.fst).Nodup) {n : Int32} {k : Handle} :
    r.find? n = some k ↔ (n, k) ∈ r := by
  induction r with
  | nil => simp [find?]
  | cons e rest ih =>
    obtain ⟨hnot, hnd⟩ := List.nodup_cons.mp h
    rw [find?_cons, List.mem_cons]
    by_cases hn : n = e.1
    · rw [if_pos hn]
      constructor
      · intro hk
        exact .inl (by rw [hn, ← Option.some.inj hk])
      · rintro (rfl | hmem)
        · rfl
        · exact absurd (List.mem_map_of_mem hmem) (hn ▸ hnot)
    · rw [if_neg hn, ih hnd]
      constructor
      · exact .inr
      · rintro (rfl | hmem)
        · exact absurd rfl hn
        · exact hmem

end Registry

/-! ## Sound levels -/

namespace Level

/-- The roster is sound, and each script is tracked at most once, by a handle of a living
instance with its number. -/
structure Sound (l : Level) : Prop where
  roster : l.roster.Sound
  keys : (l.tracked.map Prod.fst).Nodup
  tracked : ∀ n h, (n, h) ∈ l.tracked → ∃ i, l.instance? h = some i ∧ i.number = n

theorem sound_start (program : Program) (map : Int32) (config : Config) :
    (start program map config).Sound :=
  ⟨Roster.sound_empty, List.nodup_nil, fun _ _ h => absurd h List.not_mem_nil⟩

theorem Sound.find {l : Level} (hl : l.Sound) {n : Int32} {h : Handle} (hf : l.find? n = some h) :
    ∃ i, l.instance? h = some i ∧ i.number = n :=
  hl.tracked n h ((Registry.find?_eq_some_iff hl.keys).mp hf)

/-- An instance of one of the program's scripts. -/
def Runs (program : Program) (i : Instance) : Prop :=
  ∃ script, program.findScript i.number = some script ∧ i.typeTag = script.typeTag ∧
    i.entry = script.entry

/-- The ways in which one act changes the instances and the registry. `sets` are the statuses
that are set from outside. -/
inductive Change (sets : Status → Prop) (l l' : Level) : Prop
  | keep (roster : l'.roster = l.roster) (tracked : l'.tracked = l.tracked)
  | order {h : Handle} (roster : l'.roster = l.roster.putFirst h ∨ l'.roster = l.roster.putLast h)
      (tracked : l'.tracked = l.tracked)
  /-- The status of a tracked instance is set. -/
  | status {h : Handle} {i : Instance} {st : Status} (find : l.find? i.number = some h)
      (inst : l.instance? h = some i) (set : sets st)
      (roster : l'.roster = l.roster.modify h ({ · with status := st }))
      (tracked : l'.tracked = l.tracked)
  | postpone {h : Handle} (roster : l'.roster = l.roster.modify h ({ · with lastTick := l.tick }))
      (tracked : l'.tracked = l.tracked)
  | turn {h : Handle} {i j : Instance} (inst : l.instance? h = some i)
      (turn : Simulation.TurnOf l i j) (roster : l'.roster = l.roster.replace h j)
      (tracked : l'.tracked = l.tracked)
  | add {i : Instance} (always : Bool) (runs : Runs l.program i) (status : i.status = .running)
      (lastTick : i.lastTick = 0) (fresh : always = false → l.find? i.number = none)
      (roster : l'.roster = (l.add i always).2.roster)
      (tracked : l'.tracked = (l.add i always).2.tracked)
  | remove {h : Handle} {i : Instance} (inst : l.instance? h = some i)
      (roster : l'.roster = (l.remove h).roster) (tracked : l'.tracked = (l.remove h).tracked)
  | clear (roster : l'.roster = l.roster.clear) (tracked : l'.tracked = [])

variable {sets : Status → Prop} {l l' : Level}

/-- Instances that keep their handles and numbers keep the registry sound. -/
theorem Sound.of_keeps (hl : l.Sound) (hr : l'.roster.Sound) (ht : l'.tracked = l.tracked)
    (hk : ∀ h i, l.instance? h = some i → ∃ j, l'.instance? h = some j ∧ j.number = i.number) :
    l'.Sound := by
  refine ⟨hr, ht ▸ hl.keys, fun n h hmem => ?_⟩
  obtain ⟨i, hi, rfl⟩ := hl.tracked n h (ht ▸ hmem)
  exact hk h i hi

theorem instance?_congr (h : l'.roster = l.roster) : l'.instance? = l.instance? := by
  funext k
  rw [instance?, instance?, h]

theorem Sound.of_modify (hl : l.Sound) {h : Handle} {f : Instance → Instance}
    (hr : l'.roster = l.roster.modify h f) (ht : l'.tracked = l.tracked)
    (hf : ∀ i, l.instance? h = some i → (f i).number = i.number) : l'.Sound := by
  refine hl.of_keeps (hr ▸ Roster.sound_modify hl.roster h f) ht fun k i hi => ?_
  rw [instance?, hr, Roster.instance?_modify hl.roster]
  split
  · rename_i hk
    subst hk
    exact ⟨f i, by rw [show l.roster.instance? k = some i from hi]; rfl, hf i hi⟩
  · exact ⟨i, hi, rfl⟩

/-- Removing an instance only forgets it where it is tracked. -/
theorem find?_remove {h : Handle} {i : Instance} (hi : l.instance? h = some i) (n : Int32) :
    (l.remove h).find? n =
      if n = i.number ∧ l.find? i.number = some h then none else l.find? n := by
  rw [find?, remove_frame hi]
  show Registry.find? (l.without h i).tracked n = _
  unfold without
  by_cases htracked : l.find? i.number = some h
  · rw [if_pos htracked, Registry.find?_forget]
    simp only [htracked, and_true]
    rfl
  · rw [if_neg htracked, if_neg fun h => htracked h.2]
    rfl

theorem find?_add (l : Level) (i : Instance) (always : Bool) (n : Int32) :
    (l.add i always).2.find? n =
      if always = false ∧ n = i.number then some (l.add i always).1 else l.find? n := by
  cases always with
  | true => rfl
  | false =>
    have h : (l.add i false).2.find? n =
        if n = i.number then some (l.add i false).1 else l.find? n :=
      Registry.find?_track l.tracked i.number n (l.add i false).1
    simpa using h

theorem woken_number (n : Int32) (i : Instance) : (woken n i).number = i.number := by
  unfold woken
  split <;> rfl

theorem Sound.remove (hl : l.Sound) {h : Handle} {i : Instance} (hi : l.instance? h = some i) :
    (l.remove h).Sound := by
  have hs := (remove_spec hl.roster hi).1
  have htracked : (l.remove h).tracked = (l.without h i).tracked := by rw [remove_frame hi]
  have hfind := instance?_remove hl.roster hi
  -- The registry only loses entries, and every entry of the removed instance is lost.
  have hmem : ∀ n k, (n, k) ∈ (l.remove h).tracked → (n, k) ∈ l.tracked ∧ k ≠ h := by
    intro n k hnk
    rw [htracked, without] at hnk
    have hne : (n, k) ∈ l.tracked → k = h → l.find? i.number = some h := by
      rintro hin rfl
      obtain ⟨j, hj, rfl⟩ := hl.tracked n k hin
      rw [hi] at hj
      rw [Option.some.inj hj]
      exact (Registry.find?_eq_some_iff hl.keys).mpr hin
    dsimp only at hnk
    split at hnk
    · obtain ⟨hin, hnum⟩ := Registry.mem_forget.mp hnk
      refine ⟨hin, ?_⟩
      rintro rfl
      obtain ⟨j, hj, hjn⟩ := hl.tracked n k hin
      rw [hi] at hj
      exact hnum (by rw [← hjn, Option.some.inj hj])
    · rename_i hnot
      exact ⟨hnk, fun hk => hnot (hne hnk hk)⟩
  refine ⟨hs, ?_, fun n k hnk => ?_⟩
  · rw [htracked, without]
    dsimp only
    split
    · exact Registry.nodup_forget hl.keys _
    · exact hl.keys
  · obtain ⟨hin, hne⟩ := hmem n k hnk
    obtain ⟨j, hj, rfl⟩ := hl.tracked n k hin
    exact ⟨woken i.number j, by rw [hfind, if_neg hne, hj]; rfl, woken_number _ _⟩

/-- Adding an instance that is tracked or not. -/
theorem Sound.addRestored (hl : l.Sound) (i : Instance) (tracked : Bool) :
    (l.addRestored (i, tracked)).Sound := by
  have hfind : ∀ k, (l.addRestored (i, tracked)).instance? k =
      if k = (l.roster.add i).1 then some i else l.instance? k :=
    Roster.instance?_add hl.roster i
  have hold : ∀ n k, (n, k) ∈ l.tracked →
      ∃ j, (l.addRestored (i, tracked)).instance? k = some j ∧ j.number = n := by
    intro n k hnk
    obtain ⟨j, hj, rfl⟩ := hl.tracked n k hnk
    -- Handles of living instances differ from the new one.
    have hne : k ≠ (l.roster.add i).1 := by
      rintro rfl
      exact absurd (hj.symm.trans (Roster.instance?_fst_add hl.roster i)) (by simp)
    exact ⟨j, by rw [hfind, if_neg hne, hj], rfl⟩
  refine ⟨Roster.sound_add hl.roster i, ?_, fun n k hnk => ?_⟩
  · cases tracked with
    | false => exact hl.keys
    | true => exact Registry.nodup_track hl.keys _ _
  · cases tracked with
    | false => exact hold n k hnk
    | true =>
      rcases List.mem_cons.mp hnk with heq | hmem
      · have hk : k = (l.roster.add i).1 := (Prod.mk.inj heq).2
        exact ⟨i, by rw [hfind, if_pos hk], (Prod.mk.inj heq).1.symm⟩
      · exact hold n k (Registry.mem_forget.mp hmem).1

theorem Sound.promote (hl : l.Sound) (n : Int32) : (l.promote n).Sound :=
  hl.of_keeps (sound_promote hl.roster n) rfl fun h i hi =>
    ⟨awaiting n i, by rw [instance?_promote hl.roster, hi]; rfl, rfl⟩

theorem Sound.add (hl : l.Sound) (i : Instance) (always : Bool) : (l.add i always).2.Sound := by
  cases always with
  | true => exact hl.addRestored i false
  | false => exact (hl.addRestored i true).promote i.number

theorem Sound.congr (hl : l.Sound) (hr : l'.roster = l.roster) (ht : l'.tracked = l.tracked) :
    l'.Sound :=
  hl.of_keeps (hr ▸ hl.roster) ht fun h i hi => ⟨i, by rw [instance?_congr hr, hi], rfl⟩

/-- Every change keeps a level sound. -/
theorem Change.sound (hc : Change sets l l') (hl : l.Sound) : l'.Sound := by
  cases hc with
  | keep roster tracked => exact hl.congr roster tracked
  | order roster tracked =>
    obtain ⟨hsound, hfind⟩ := Roster.sound_put hl.roster roster
    exact hl.of_keeps hsound tracked fun k i hi => ⟨i, (hfind k).trans hi, rfl⟩
  | status find inst set roster tracked => exact hl.of_modify roster tracked fun _ _ => rfl
  | postpone roster tracked => exact hl.of_modify roster tracked fun _ _ => rfl
  | turn inst turn roster tracked =>
    refine hl.of_modify roster tracked fun k hk => ?_
    rw [inst] at hk
    rw [turn.number, Option.some.inj hk]
  | add always runs status lastTick fresh roster tracked => exact (hl.add _ _).congr roster tracked
  | remove inst roster tracked => exact (hl.remove inst).congr roster tracked
  | clear roster tracked =>
    refine ⟨roster ▸ (Roster.sound_clear hl.roster).1, ?_, ?_⟩
    · rw [tracked]
      exact List.nodup_nil
    · rw [tracked]
      exact fun _ _ h => absurd h List.not_mem_nil

end Level

/-! ## Acts -/

/-- The statuses that an act sets are among those given. -/
def Act.Sets (sets : Status → Prop) : Act → Prop
  | .setStatus _ st => sets st
  | _ => True

theorem Act.SetsStatus.sets {l : Level} {n : Int32} {st : Status} {a : Act} {among : Status → Prop}
    (h : a.SetsStatus l n st) (hsuspend : among .suspended) (hremove : among .pleaseRemove)
    (ha : a.Sets among) : among st := by
  cases h with
  | set => exact ha
  | suspend | deferredSuspend => exact hsuspend
  | terminate | deferredTerminate => exact hremove

namespace Level

variable {sets : Status → Prop} {l l' : Level} {a : Act}

theorem Sound.number_of_find (hl : l.Sound) {n : Int32} {h : Handle} {i : Instance}
    (hf : l.find? n = some h) (hi : l.instance? h = some i) : i.number = n := by
  obtain ⟨j, hj, hn⟩ := hl.find hf
  rw [Option.some.inj (hi.symm.trans hj), hn]

theorem Sound.find?_eq_none (hl : l.Sound) {n : Int32}
    (hn : (l.find? n).bind l.instance? = none) : l.find? n = none := by
  cases hf : l.find? n with
  | none => rfl
  | some h =>
    obtain ⟨i, hi, -⟩ := hl.find hf
    rw [hf, Option.bind_some, hi] at hn
    cases hn

/-- What one step can do to the instances and the registry. -/
theorem Step.change (hs : l.Step a l') (hl : l.Sound) (hrun : sets .running)
    (hsuspend : sets .suspended) (hremove : sets .pleaseRemove) (ha : a.Sets sets) :
    l.Change sets l' := by
  cases hs with
  | tick | takeRequest | takeReady | reap | idle | turnNobody | removeNobody => exact .keep rfl rfl
  | set find inst alive hset =>
    obtain rfl := hl.number_of_find find inst
    exact .status find inst (hset.sets hsuspend hremove ha) rfl rfl
  | resume find inst =>
    obtain rfl := hl.number_of_find find inst
    exact .status find inst hrun rfl rfl
  | add idle new free =>
    obtain ⟨script, _, _, _, _, _, hscript, rfl⟩ := new
    exact .add a.startsBesides ⟨script, hscript, rfl, rfl⟩ rfl rfl
      (fun halone => hl.find?_eq_none (free halone)) rfl rfl
  | turn inst turn turned => exact .turn inst turn (turned.roster ▸ rfl) turned.tracked
  | postpone => exact .postpone rfl rfl
  | remove inst => exact .remove inst rfl rfl
  | putFirst => exact .order (.inl rfl) rfl
  | putLast => exact .order (.inr rfl) rfl
  | terminateAll => exact .clear rfl rfl

end Level

namespace Simulation

variable {ω : Type} [Host ω] {sets : Status → Prop} {s : Simulation ω}

/-- What one act can do to the instances and the registry. -/
theorem change_act (hl : s.level.Sound) (hrun : sets .running) (hsuspend : sets .suspended)
    (hremove : sets .pleaseRemove) {a : Act} (ha : a.Sets sets) :
    s.level.Change sets (s.act a).level :=
  (step_act s a).change hl hrun hsuspend hremove ha

theorem change_any (hl : s.level.Sound) (a : Act) :
    s.level.Change (fun _ => True) (s.act a).level := by
  have hsets : a.Sets fun _ => True := by cases a <;> trivial
  exact change_act hl trivial trivial trivial hsets

theorem sound_act (hl : s.level.Sound) (a : Act) : (s.act a).level.Sound :=
  (change_any hl a).sound hl

/-! ## What acts leave alone -/

/-- The program, the settings and the map stay, and so does an empty stack. -/
structure Stays (l l' : Level) : Prop where
  program : l'.program = l.program
  config : l'.config = l.config
  map : l'.map = l.map
  stack : l.stack = #[] → l'.stack = #[]

theorem Stays.refl (l : Level) : Stays l l := ⟨rfl, rfl, rfl, id⟩

/-- And the tick stays. -/
structure StaysInTick (l l' : Level) : Prop extends Stays l l' where
  tick : l'.tick = l.tick

theorem Stays.trans {l₁ l₂ l₃ : Level} (h : Stays l₁ l₂) (h' : Stays l₂ l₃) : Stays l₁ l₃ :=
  ⟨h'.program.trans h.program, h'.config.trans h.config, h'.map.trans h.map,
    fun hs => h'.stack (h.stack hs)⟩

theorem staysInTick_act (s : Simulation ω) {a : Act} (ha : a ≠ .tick) :
    StaysInTick s.level (s.act a).level := by
  have hs := step_act s a
  generalize (s.act a).level = l' at hs ⊢
  cases hs with
  | tick => exact absurd rfl ha
  | add =>
    rw [Level.add_frame]
    exact ⟨⟨rfl, rfl, rfl, id⟩, rfl⟩
  | turn inst turn turned =>
    exact ⟨⟨turned.program, turned.config, turned.map, fun hs => turned.stack.trans hs⟩,
      turned.tick⟩
  | remove =>
    rw [Level.remove_keeps]
    exact ⟨⟨rfl, rfl, rfl, id⟩, rfl⟩
  | terminateAll => exact ⟨⟨rfl, rfl, rfl, fun _ => rfl⟩, rfl⟩
  | _ => exact ⟨⟨rfl, rfl, rfl, id⟩, rfl⟩

theorem stays_act (s : Simulation ω) (a : Act) : Stays s.level (s.act a).level := by
  by_cases ha : a = .tick
  · rw [ha]
    exact ⟨rfl, rfl, rfl, id⟩
  · exact (staysInTick_act s ha).toStays

theorem sound_actAll (hl : s.level.Sound) (acts : List Act) : (s.actAll acts).level.Sound := by
  induction acts generalizing s with
  | nil => exact hl
  | cons a rest ih => exact ih (sound_act hl a)

theorem stays_actAll (s : Simulation ω) (acts : List Act) :
    Stays s.level (s.actAll acts).level := by
  induction acts generalizing s with
  | nil => exact .refl _
  | cons a rest ih => exact (stays_act s a).trans (ih _)

end Simulation

end LevelScript
