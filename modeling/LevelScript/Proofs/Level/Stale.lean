import LevelScript.Proofs.Level.Dormancy
import LevelScript.Proofs.Level.Pairs

/-!
# Handles of instances that are gone

A cell is used again once its instance is gone, but it is of another generation then. Handles of
the instance that was there may be anywhere: in the queue of new instances, among those that a tick
still visits, with the caller. They find nothing any more, and nothing is done to the instance that
took the place. Generations have 32 bits, so this holds until the cell was given up 2³² times.

* `Level.Change.advances`: an act takes the cells that it gives up to their next generation.
* `releases`, `Course.generation?`: how often a cell is given up in a run, and its generation then.
* `Simulation.Ignores`: a handle finds nothing, and nothing comes of using it.
* `Occasion.stale_handles_ignored`: handles of instances that are gone are ignored.
-/

namespace LevelScript

namespace Level

variable {sets : Status → Prop} {l l' : Level}

theorem advances_modify (hs : l.roster.Sound) (h : Handle) (f : Instance → Instance) :
    l.roster.Advances (l.roster.modify h f) := by
  refine Roster.advances_of_keeps (fun i g hg => ?_) fun k hk => ?_
  · rw [(Roster.SameCells.modify l.roster h f).generations, hg]
  · rw [Roster.instance?_modify hs]
    split
    · simpa using hk
    · exact hk

theorem advances_add (hs : l.roster.Sound) (i : Instance) (always : Bool) :
    l.roster.Advances (l.add i always).2.roster := by
  refine Roster.advances_of_keeps (fun j g hg => ?_) fun k hk => ?_
  · have hadd := Roster.generation?_add hs hg i
    cases always with
    | true => exact hadd
    | false => exact ((Roster.SameCells.mapInstances (l.roster.add i).2 _).generations j).trans hadd
  · have hold : l.instance? k ≠ none := hk
    have hfind := instance?_add hs i always k
    rw [instance?] at hfind
    rw [hfind]
    split
    · simp
    · simpa using hold

/-- Removing an instance gives up its cell, and no other. -/
theorem advances_remove (hs : l.roster.Sound) {h : Handle} {i : Instance}
    (hi : l.instance? h = some i) : l.roster.Advances (l.remove h).roster := by
  intro j g hg
  have hlive : l.roster.instance? h ≠ none := Option.ne_none_iff_exists'.mpr ⟨i, hi⟩
  have hown := Roster.generation?_of_instance? hlive
  have hgen : (l.remove h).roster.generation? j =
      if j = h.index then some (h.generation + 1) else l.roster.generation? j := by
    rw [remove_eq hi, (sameCells_wake _ _).generations]
    exact Roster.generation?_erase hs hlive j
  have hfind (k : Handle) : (l.remove h).roster.instance? k =
      if k = h then none else (l.roster.instance? k).map (woken i.number) :=
    instance?_remove hs hi k
  rw [Roster.releases, Roster.occupied_eq hg]
  by_cases hj : j = h.index
  · subst hj
    obtain rfl : h.generation = g := Option.some.inj (hown.symm.trans hg)
    rw [if_pos rfl] at hgen
    -- No instance is of the generation that begins.
    have hnone : (l.remove h).roster.instance? ⟨h.index, h.generation + 1⟩ = none := by
      by_contra hsome
      have hold : l.roster.instance? ⟨h.index, h.generation + 1⟩ ≠ none := by
        rw [hfind] at hsome
        split at hsome
        · exact absurd rfl hsome
        · simpa using hsome
      have hnext := Roster.generation?_of_instance? hold
      rw [hown] at hnext
      simp at hnext
    rw [Roster.occupied_eq hgen, hnone, hgen, Option.isSome_iff_ne_none.mpr hlive]
    rfl
  · rw [if_neg hj, hg] at hgen
    have hne : (⟨j, g⟩ : Handle) ≠ h := fun heq => hj (congrArg Handle.index heq)
    rw [Roster.occupied_eq hgen, hfind, if_neg hne, Option.isSome_map, Bool.and_not_self]
    exact hgen

/-- An act takes the cells that it gives up to their next generation. -/
theorem Change.advances (hc : Change sets l l') (hl : l.Sound) : l.roster.Advances l'.roster := by
  have hs := hl.roster
  cases hc with
  | keep roster => exact roster ▸ Roster.advances_of_keeps (fun _ _ hg => hg) fun _ hk => hk
  | order roster =>
    exact Roster.advances_of_keeps
      (fun i g hg => ((Roster.SameCells.put roster).generations i).trans hg)
      (by simp only [(Roster.sound_put hs roster).2, imp_self, implies_true])
  | status _ _ _ roster => exact roster ▸ advances_modify hs _ _
  | postpone roster => exact roster ▸ advances_modify hs _ _
  | turn _ _ roster => exact roster ▸ advances_modify hs _ _
  | add always _ _ _ _ roster => exact roster ▸ advances_add hs _ always
  | remove inst roster => exact roster ▸ advances_remove hs inst
  | clear roster =>
    intro i g hg
    have hgone : l'.roster.occupied i = false := by
      rw [roster, Roster.occupied, Roster.instance?_clear hs]
      rfl
    rw [Roster.releases, hgone, Bool.not_false, Bool.and_true, roster]
    exact Roster.generation?_clear hs hg

end Level

/-! ## Runs -/

section Runs

variable {ω : Type} [Host ω]

/-- How often a cell is given up in a run. -/
def releases (cell : Nat) (run : List (Simulation ω × Act)) : Nat :=
  run.countP fun m => m.1.level.roster.releases (m.1.act m.2).level.roster cell

/-- A cell is of the generation that the number of times it was given up tells. -/
theorem Course.generation? {l l' : Level} {run : List (Simulation ω × Act)} (hc : Course l run l')
    (hl : l.Sound) {cell : Nat} {g : UInt32} (hg : l.roster.generation? cell = some g) :
    l'.roster.generation? cell = some (g + (releases cell run).toUInt32) := by
  induction hc generalizing g with
  | nil => simpa [releases] using hg
  | @cons t a run l l' here rest ih =>
    subst here
    have hnext := (Simulation.change_any hl a).advances hl cell g hg
    rw [ih (Simulation.sound_act hl a) hnext, releases, releases, List.countP_cons]
    split
    · rw [UInt32.add_assoc, Nat.add_comm, Nat.toUInt32, UInt32.ofNat_add]
      rfl
    · rfl

namespace Simulation

/-- The handle finds nothing, and nothing comes of using it. -/
structure Ignores (s : Simulation ω) (h : Handle) : Prop where
  inst : s.level.instance? h = none
  putFirst : Operation.run s (.putFirst (.handle h)) = (.flag false, s)
  putLast : Operation.run s (.putLast (.handle h)) = (.flag false, s)
  visit : s.visit h = s
  remove : s.remove h = s

theorem ignores_of_generation? {s : Simulation ω} {h : Handle} {g : UInt32} (hl : s.level.Sound)
    (hg : s.level.roster.generation? h.index = some g) (hne : g ≠ h.generation) :
    s.Ignores h := by
  have hnone : s.level.instance? h = none := by
    by_contra hsome
    have hown := Roster.generation?_of_instance? hsome
    exact hne (Option.some.inj (hg.symm.trans hown))
  have hcell : s.level.roster.cell? h = none := (Roster.cell?_eq_none_iff hl.roster).mpr hnone
  refine ⟨hnone, ?_, ?_, ?_, ?_⟩
  · simp [Operation.run, reorder, Which.find?, Level.putFirst, Roster.putFirst, hcell]
  · simp [Operation.run, reorder, Which.find?, Level.putLast, Roster.putLast, hcell]
  · rw [visit, hnone]
  · rw [remove, hnone]

end Simulation

/-- From the act that removes an instance on, its handle is ignored, until its cell was given up
as often as there are generations. -/
theorem Course.ignores {t s : Simulation ω} {a : Act} {run : List (Simulation ω × Act)} {h : Handle}
    {i : Instance} (hl : t.level.Sound) (hi : t.level.instance? h = some i)
    (hgone : (t.act a).level.instance? h = none) (hc : Course t.level ((t, a) :: run) s.level)
    (hcount : releases h.index ((t, a) :: run) < 2 ^ 32) : s.Ignores h := by
  have hg := Roster.generation?_of_instance? (Option.ne_none_iff_exists'.mpr ⟨i, hi⟩)
  -- The act gives the cell up: a cell that keeps its generation keeps its instance.
  have hact : t.level.roster.releases (t.act a).level.roster h.index = true := by
    by_contra hkept
    have hnext := (Simulation.change_any hl a).advances hl h.index h.generation hg
    rw [if_neg hkept] at hnext
    rw [Roster.releases, Roster.occupied_eq hg, Roster.occupied_eq hnext] at hkept
    have hi' : t.level.roster.instance? h = some i := hi
    have hgone' : (t.act a).level.roster.instance? h = none := hgone
    simp [hi', hgone'] at hkept
  have hpos : 0 < releases h.index ((t, a) :: run) := by
    rw [releases, List.countP_cons, if_pos hact]
    omega
  refine Simulation.ignores_of_generation? (hc.sound hl) (hc.generation? hl hg) fun heq => ?_
  have hzero : (releases h.index ((t, a) :: run)).toUInt32 = 0 := by simpa using heq
  have hnat := congrArg UInt32.toNat hzero
  rw [UInt32.toNat_ofNat_of_lt' hcount] at hnat
  exact Nat.ne_of_gt hpos hnat

namespace Occasion

/-- **Handles of instances that are gone stay so.** In every run of operations, from the act on
that removes an instance, whatever it is, its handle finds nothing, cannot be moved in the order of
turns, and visiting or removing it changes nothing; at every moment within an operation and between
them, however often the cell is used again, as long as it was given up fewer than 2³² times, this
time included. -/
theorem stale_handles_ignored {l : Level} (hl : l.Reachable Level.Fresh fun _ => True)
    {os : List (Occasion ω)} {earlier later : List (Simulation ω × Act)} {t : Simulation ω}
    {a : Act} (hm : moments l os = earlier ++ (t, a) :: later) {h : Handle} {i : Instance}
    (hi : t.level.instance? h = some i) (hgone : (t.act a).level.instance? h = none) :
    (∀ between t' a' rest, later = between ++ (t', a') :: rest →
      releases h.index ((t, a) :: between) < 2 ^ 32 → t'.Ignores h) ∧
    (releases h.index ((t, a) :: later) < 2 ^ 32 →
      ∀ o : Occasion ω, (o.enter (applyAll l os)).Ignores h) := by
  have hcourse := course_moments l os
  rw [hm] at hcourse
  obtain ⟨hearlier, hnow⟩ := hcourse.split_at
  have hsound := hearlier.sound hl.atRest.sound
  refine ⟨fun between t' a' rest hsplit hcount => ?_, fun hcount o => ?_⟩
  · rw [hsplit, ← List.cons_append] at hnow
    exact hnow.split_at.1.ignores hsound hi hgone hcount
  · exact Course.ignores (s := o.enter (applyAll l os)) hsound hi hgone hnow hcount

end Occasion

end Runs

namespace Replaced

open Simulation
open Ended (occasion suspended)

def relaunch : Launch := { script := 1, deferStart := true }

/-- Script 1 is suspended, and about to be dropped. -/
def before : Simulation StillWorld := (occasion .terminateAll).enter suspended.level

/-- Script 1 is gone, and about to be launched again. -/
def between : Simulation StillWorld :=
  (occasion (.launch relaunch)).enter (before.act .terminateAll).level

theorem replaced_facts :
    (before.level.instance? ⟨0, 0⟩).isSome = true ∧
    ((before.act .terminateAll).level.instance? ⟨0, 0⟩).isSome = false ∧
    between.level.isReplica = false ∧ (between.start relaunch).2.level.pending = [] ∧
    (between.start relaunch).2.level.ready = [] ∧ (between.start relaunch).2.reapActs = [] ∧
    ((between.act (.start relaunch)).level.instance? ⟨0, 1⟩).isSome = true ∧
    releases 0 [(before, .terminateAll), (between, .start relaunch)] = 1 := by
  decide +kernel

theorem acts_relaunch : Operation.acts between (.launch relaunch) = [.start relaunch] := by
  obtain ⟨-, -, hreplica, hpending, hready, hreap, -⟩ := replaced_facts
  rw [Operation.acts, if_neg (by simp [hreplica]), settledActs, settleActs_done hpending hready,
    hreap]

/-- The next instance of the script is in the same cell, and the handle of the first one is
ignored. -/
theorem stale_handles_ignored_replaced :
    let os := [occasion .terminateAll, occasion (.launch relaunch)]
    ∃ i j, Level.Reachable Level.Fresh (fun _ => True) suspended.level ∧
      Occasion.moments suspended.level os =
        [] ++ (before, .terminateAll) :: [(between, .start relaunch)] ∧
      before.level.instance? ⟨0, 0⟩ = some i ∧
      (before.act .terminateAll).level.instance? ⟨0, 0⟩ = none ∧
      releases 0 [(before, .terminateAll), (between, .start relaunch)] < 2 ^ 32 ∧
      (Occasion.applyAll suspended.level os).instance? ⟨0, 1⟩ = some j ∧
      ∀ o : Occasion StillWorld,
        (o.enter (Occasion.applyAll suspended.level os)).Ignores ⟨0, 0⟩ := by
  intro os
  obtain ⟨hbefore, hgone, -, -, -, -, hafter, hcount⟩ := replaced_facts
  obtain ⟨i, hi⟩ := Option.isSome_iff_exists.mp hbefore
  obtain ⟨j, hj⟩ := Option.isSome_iff_exists.mp hafter
  have hidle : Level.Reachable Level.Fresh (fun _ => True) Ended.idle.level :=
    .origin (.start Ended.program 1 .standard)
  have hreach : Level.Reachable Level.Fresh (fun _ => True) suspended.level :=
    Ended.run_suspended ▸ hidle.run trivial
  have hmoments : Occasion.moments suspended.level os =
      [] ++ (before, .terminateAll) :: [(between, .start relaunch)] := by
    show _ :: (between.moments (Operation.acts between (.launch relaunch)) ++ []) = _
    rw [acts_relaunch]
    rfl
  have hend : Occasion.applyAll suspended.level os = (between.act (.start relaunch)).level := by
    show (Operation.run between (.launch relaunch)).2.level = _
    rw [Operation.run_eq_acts, acts_relaunch]
    rfl
  have hnone := Option.not_isSome_iff_eq_none.mp (ne_true_of_eq_false hgone)
  have hfew : releases 0 [(before, .terminateAll), (between, .start relaunch)] < 2 ^ 32 := by
    rw [hcount]
    decide
  have hstale := Occasion.stale_handles_ignored hreach hmoments hi hnone
  exact ⟨i, j, hreach, hmoments, hi, hnone, hfew, hend ▸ hj, hstale.2 hfew⟩

end Replaced

end LevelScript
