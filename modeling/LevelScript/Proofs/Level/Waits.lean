import LevelScript.Proofs.Level.Pass

/-!
# Waiting for scripts

An instance can wait for the start of a script, and then for its end. It waits for the start only
while the script is not tracked and for the end only while it is, so that there is always
something to come that ends the wait.

* `Level.Waits`: every wait for a script fits the registry, and the instance took its last turn
  at a tick that is allowed.
* `Change.waits`: no change of a level breaks this.
* `Level.Lived`: the levels that a game meets, saves and restores included.
* `Lived.waits`: in all of them every wait fits, and all that wait took a turn in the last tick.
-/

namespace LevelScript

/-! ## Waits that fit -/

/-- The instance waits for a script only as the registry allows, since a tick that is allowed. -/
structure Instance.Fits (tracked : Int32 → Bool) (stamp : UInt64 → Prop) (i : Instance) : Prop where
  scriptWait : ∀ n, i.status = .scriptWait n → tracked n = true ∧ stamp i.lastTick
  scriptWaitPre : ∀ n, i.status = .scriptWaitPre n → tracked n = false ∧ stamp i.lastTick

/-- A status is not a wait for a script. -/
def Status.Plain (st : Status) : Prop := ∀ n, st ≠ .scriptWait n ∧ st ≠ .scriptWaitPre n

theorem Status.closed_plain : Status.Closed Status.Plain where
  running := fun _ => ⟨nofun, nofun⟩
  suspended := fun _ => ⟨nofun, nofun⟩
  pleaseRemove := fun _ => ⟨nofun, nofun⟩
  promoted := fun n st h => by
    rwa [Level.promoted, if_neg (h n).2]

namespace Instance

variable {tracked : Int32 → Bool} {stamp stamp' : UInt64 → Prop} {i j : Instance}

theorem Fits.of_plain (h : i.status.Plain) : i.Fits tracked stamp :=
  ⟨fun n hn => absurd hn (h n).1, fun n hn => absurd hn (h n).2⟩

theorem Fits.congr (h : i.Fits tracked stamp) (hstatus : j.status = i.status)
    (hstamp : stamp i.lastTick → stamp' j.lastTick) : j.Fits tracked stamp' :=
  ⟨fun n hn => (h.scriptWait n (hstatus ▸ hn)).imp_right hstamp,
    fun n hn => (h.scriptWaitPre n (hstatus ▸ hn)).imp_right hstamp⟩

end Instance

namespace Level

/-- All waits for scripts fit the registry. -/
def Waits (stamp : UInt64 → Prop) (l : Level) : Prop :=
  ∀ h i, l.instance? h = some i → i.Fits l.isTracked stamp

variable {stamp : UInt64 → Prop} {sets : Status → Prop} {l l' : Level}

theorem isTracked_congr (h : l'.tracked = l.tracked) : l'.isTracked = l.isTracked := by
  funext n
  rw [isTracked, isTracked, find?, find?, h]

/-- The instances may change one by one if the registry stays. -/
theorem Waits.of_instances (hw : l.Waits stamp) (ht : l'.tracked = l.tracked)
    (h : ∀ k j, l'.instance? k = some j →
      l.instance? k = some j ∨ j.Fits l.isTracked stamp) : l'.Waits stamp := by
  intro k j hj
  rw [isTracked_congr ht]
  exact (h k j hj).elim (hw k j) id

theorem Waits.of_modify (hw : l.Waits stamp) (hl : l.Sound) (ht : l'.tracked = l.tracked)
    {h : Handle} {f : Instance → Instance} (hr : l'.roster = l.roster.modify h f)
    (hf : ∀ i, l.instance? h = some i → (f i).Fits l.isTracked stamp) : l'.Waits stamp := by
  refine hw.of_instances ht fun k j hj => ?_
  rw [instance?, hr, Roster.instance?_modify hl.roster] at hj
  split at hj
  · rename_i hk
    subst hk
    obtain ⟨i, hi, rfl⟩ := Option.map_eq_some_iff.mp hj
    exact .inr (hf i hi)
  · exact .inl hj

/-- Waits fit when a script is started: those that waited for the start now wait for the end. -/
theorem Waits.add (hw : l.Waits stamp) (hl : l.Sound) {i : Instance} (hplain : i.status.Plain)
    (always : Bool) : (l.add i always).2.Waits stamp := by
  intro k j hj
  rw [instance?_add hl.roster] at hj
  obtain ⟨j₀, hj₀, rfl⟩ := Option.map_eq_some_iff.mp hj
  have hfits : j₀.Fits l.isTracked stamp := by
    split at hj₀
    · rw [← Option.some.inj hj₀]
      exact .of_plain hplain
    · exact hw k j₀ hj₀
  cases always with
  | true => exact hfits
  | false =>
    have htracked : ∀ n,
        (l.add i false).2.isTracked n = (decide (n = i.number) || l.isTracked n) := by
      intro n
      rw [isTracked, isTracked, find?_add]
      by_cases hn : n = i.number <;> simp [hn]
    have hstatus : (settled i.number false j₀).status = promoted i.number j₀.status := rfl
    constructor
    · intro n hn
      rw [hstatus, promoted] at hn
      rw [htracked]
      split at hn
      · rename_i hpre
        obtain rfl := Status.scriptWait.inj hn
        exact ⟨by simp, (hfits.scriptWaitPre _ hpre).2⟩
      · exact (hfits.scriptWait n hn).imp_left fun h => by simp [h]
    · intro n hn
      rw [hstatus, promoted] at hn
      rw [htracked]
      split at hn
      · simp at hn
      · rename_i hne
        have hother : n ≠ i.number := by
          rintro rfl
          exact hne hn
        exact (hfits.scriptWaitPre n hn).imp_left fun h => by simp [h, hother]

/-- Waits fit when an instance is removed: nobody waits for its script any more. -/
theorem Waits.remove (hw : l.Waits stamp) (hl : l.Sound) {h : Handle} {i : Instance}
    (hi : l.instance? h = some i) : (l.remove h).Waits stamp := by
  intro k j hj
  rw [instance?_remove hl.roster hi] at hj
  split at hj
  · simp at hj
  · obtain ⟨j₀, hj₀, rfl⟩ := Option.map_eq_some_iff.mp hj
    have hfits := hw k j₀ hj₀
    have htracked : ∀ n, n ≠ i.number → (l.remove h).isTracked n = l.isTracked n := by
      intro n hn
      rw [isTracked, isTracked, find?_remove hi, if_neg fun h => hn h.1]
    have hfewer : ∀ n, l.isTracked n = false → (l.remove h).isTracked n = false := by
      intro n hn
      rw [isTracked, find?_remove hi]
      split
      · rfl
      · exact hn
    unfold woken
    split
    · exact .of_plain Status.closed_plain.running
    · rename_i hnot
      constructor
      · intro n hn
        have hother : n ≠ i.number := by
          rintro rfl
          exact hnot hn
        rw [htracked n hother]
        exact hfits.scriptWait n hn
      · intro n hn
        exact (hfits.scriptWaitPre n hn).imp_left (hfewer n)

/-- No change breaks a wait, as long as nobody is told to wait for a script from outside. -/
theorem Change.waits (hc : Change sets l l') (hsets : ∀ st, sets st → st.Plain) (hl : l.Sound)
    (hstamp : stamp l.tick) (hw : l.Waits stamp) : l'.Waits stamp := by
  cases hc with
  | keep roster tracked =>
    exact hw.of_instances tracked fun k j hj => .inl (by rwa [← instance?_congr roster])
  | order roster tracked =>
    obtain ⟨-, hfind⟩ := Roster.sound_put hl.roster roster
    exact hw.of_instances tracked fun k j hj => .inl ((hfind k).symm.trans hj)
  | status find inst set roster tracked =>
    exact hw.of_modify hl tracked roster fun i _ => .of_plain (hsets _ set)
  | postpone roster tracked =>
    exact hw.of_modify hl tracked roster fun i hi => (hw _ i hi).congr rfl fun _ => hstamp
  | @turn h i j inst turn roster tracked =>
    refine hw.of_modify hl tracked roster fun i' hi' => ?_
    have hlast : stamp j.lastTick := turn.lastTick ▸ hstamp
    refine ⟨fun n hn => ⟨?_, hlast⟩, fun n hn => ⟨turn.scriptWaitPre n hn, hlast⟩⟩
    rcases turn.scriptWait n hn with h | h
    · exact ((hw _ i inst).scriptWait n h).1
    · exact h
  | add always runs status lastTick fresh roster tracked =>
    have h := hw.add hl (status ▸ Status.closed_plain.running) always
    exact h.of_instances tracked fun k j hj => .inl (by rwa [← instance?_congr roster])
  | remove inst roster tracked =>
    have h := hw.remove hl inst
    exact h.of_instances tracked fun k j hj => .inl (by rwa [← instance?_congr roster])
  | clear roster tracked =>
    intro k j hj
    have hs := Roster.sound_clear hl.roster
    have hmem : (k, j) ∈ l.roster.clear.entries :=
      (Roster.mem_entries_iff hs.1).mpr (by rwa [← roster])
    rw [hs.2] at hmem
    exact absurd hmem List.not_mem_nil

end Level

/-! ## Runs -/

namespace Simulation

variable {ω : Type} [Host ω] {s : Simulation ω} {stamp : UInt64 → Prop}

theorem waits_act (hl : s.level.Sound) (hstamp : stamp s.level.tick) (hw : s.level.Waits stamp)
    {a : Act} (ha : a.Sets Status.Plain) : (s.act a).level.Waits stamp := by
  have hplain := Status.closed_plain
  have hchange := change_act hl hplain.running hplain.suspended hplain.pleaseRemove ha
  exact hchange.waits (fun _ h => h) hl hstamp hw

theorem waits_actAll {acts : List Act} (hl : s.level.Sound) (hp : s.Proper Status.Plain acts)
    (hw : s.level.Waits stamp) (hstamp : stamp s.level.tick) :
    (s.actAll acts).level.Waits stamp ∧ (s.actAll acts).level.tick = s.level.tick := by
  induction acts generalizing s with
  | nil => exact ⟨hw, rfl⟩
  | cons a rest ih =>
    have htick := (staysInTick_act s hp.1.ne_tick).tick
    obtain ⟨hw', ht'⟩ := ih (sound_act hl a) hp.2 (waits_act hl hstamp hw hp.1.sets)
      (htick ▸ hstamp)
    exact ⟨hw', ht'.trans htick⟩

theorem isReplica_congr {l l' : Level} (h : Stays l l') : l'.isReplica = l.isReplica := by
  rw [Level.isReplica, Level.isReplica, h.config]

end Simulation

namespace Level

open Simulation

/-- Ticks at which those that wait now can have taken their last turns, while a tick goes by. -/
def Recent (now last : UInt64) : Prop := last = now ∨ last + 1 = now

theorem Recent.ne_succ {now last : UInt64} (h : Recent now last) : last ≠ now + 1 := by
  intro heq
  have hnat := congrArg UInt64.toNat heq
  have hone : (1 : UInt64).toNat = 1 := rfl
  have hlt := last.toNat_lt
  rcases h with rfl | rfl
  · rw [UInt64.toNat_add, hone] at hnat
    omega
  · rw [UInt64.toNat_add, UInt64.toNat_add, hone] at hnat
    omega

theorem Waits.mono {l : Level} {stamp stamp' : UInt64 → Prop} (hw : l.Waits stamp)
    (h : ∀ t, stamp t → stamp' t) : l.Waits stamp' :=
  fun k i hi => (hw k i hi).congr rfl (h _)

/-- While an operation goes on, those that wait took a turn in this tick or in the one before. -/
theorem waits_within {ω : Type} [Host ω] {s : Simulation ω} (hl : s.level.AtRest)
    (hw : s.level.Waits (· = s.level.tick)) {op : Operation} (hop : op.Sets Status.Plain)
    {xs ys : List Act} (hacts : op.acts s = xs ++ ys) :
    (s.actAll xs).level.Waits (Recent (s.actAll xs).level.tick) := by
  obtain ⟨front, rest, heq, hfront, hproper⟩ := op.exists_proper_acts Status.closed_plain hl hop
  rcases hfront with rfl | ⟨-, rfl⟩
  · rw [List.nil_append] at heq
    rw [actAll_nil] at hproper
    rw [← heq, hacts] at hproper
    obtain ⟨hw', ht⟩ := waits_actAll hl.sound ((proper_append _ _).mp hproper).1 hw rfl
    exact hw'.mono fun t ht' => .inl (ht'.trans ht.symm)
  · cases xs with
    | nil => exact hw.mono fun t ht => .inl ht
    | cons a xs =>
      rw [hacts, List.cons_append, List.cons_append, List.nil_append, List.cons.injEq] at heq
      obtain ⟨rfl, hrest⟩ := heq
      rw [← hrest] at hproper
      have hw₁ : (s.act .tick).level.Waits (Recent (s.level.tick + 1)) :=
        fun k i hi => (hw k i hi).congr rfl fun h => .inr (by rw [h])
      obtain ⟨hw', ht⟩ := waits_actAll (sound_act hl.sound .tick) ((proper_append _ _).mp hproper).1
        hw₁ (.inl rfl)
      have htick : (s.actAll (.tick :: xs)).level.tick = s.level.tick + 1 := ht
      rw [htick]
      exact hw'

/-- Between operations, those that wait took a turn in the last tick. -/
theorem waits_run {ω : Type} [Host ω] {s : Simulation ω} (hl : s.level.AtRest)
    (hw : s.level.Waits (· = s.level.tick)) {op : Operation} (hop : op.Sets Status.Plain) :
    (op.run s).2.level.Waits (· = (op.run s).2.level.tick) := by
  have hwithin := waits_within hl hw hop (List.append_nil _).symm
  rw [← op.run_eq_acts s] at hwithin
  by_cases htick : op = .tick
  · subst htick
    by_cases hr : s.level.isReplica = true
    · have hsame : (Operation.tick.run s).2 = s := if_pos hr
      rw [hsame]
      exact hw
    · intro k i hi
      have hlast := stamped_tick hl.sound (by simpa using hr) hl.quiet hi
      exact (hwithin k i hi).congr rfl fun _ => hlast
  · have hproper := op.proper_acts Status.closed_plain hl htick hop
    obtain ⟨hw', ht⟩ := waits_actAll hl.sound hproper hw rfl
    rw [op.run_eq_acts s]
    exact hw'.mono fun t h => h.trans ht.symm

theorem waits_restore {l l' : Level} {program : Program} {config : Config} (hl : l.Sound)
    (h : restore program l.snapshot config = .ok l') (hw : l.Waits (· = l.tick)) :
    l'.Waits (· = l'.tick) := by
  obtain ⟨ps, hpaired, -⟩ := paired_restore hl h
  have htracked : ∀ n, l'.isTracked n = l.isTracked n := by
    intro n
    have hrel := hpaired.tracked n
    rw [isTracked, isTracked]
    generalize l.find? n = x at hrel ⊢
    generalize l'.find? n = y at hrel ⊢
    cases hrel <;> rfl
  intro k j hj
  obtain ⟨a, i, hi, script, -, rfl⟩ := exists_of_restore hl h hj
  rw [show l'.isTracked = l.isTracked from funext htracked, tick_restore h]
  exact (hw a i hi).congr rfl id

/-- The levels that a game meets: it starts one, performs operations, and goes on from what it
saved before. It does not tell an instance to wait for a script. -/
inductive Lived : Level → Prop
  | start (program : Program) (map : Int32) (config : Config) : Lived (start program map config)
  | run {ω : Type} [Host ω] {s : Simulation ω} {op : Operation} (h : Lived s.level)
      (hop : op.Sets Status.Plain) : Lived (op.run s).2.level
  | restore {l l' : Level} {program : Program} {config : Config} (h : Lived l)
      (hr : restore program l.snapshot config = .ok l') : Lived l'

namespace Lived

variable {l : Level}

theorem atRest (h : l.Lived) : l.AtRest := by
  induction h with
  | start program map config => exact atRest_start program map config
  | run _ _ ih => exact ih.run _
  | restore _ hr _ => exact atRest_restore hr

/-- In every level that a game meets, all waits for scripts fit. -/
theorem waits (h : l.Lived) : l.Waits (· = l.tick) := by
  induction h with
  | start program map config =>
    intro k i hi
    have hmem := (Roster.mem_entries_iff (sound_start program map config).roster).mpr hi
    exact absurd hmem List.not_mem_nil
  | run h hop ih => exact waits_run h.atRest ih hop
  | restore h hr ih => exact waits_restore h.atRest.sound hr ih

end Lived

end Level

end LevelScript
