import LevelScript.Proofs.Level.Pass

/-!
# A visit touches one instance

Instances share one stack, one memory and one roster. Whatever an instance does in its turn, and
whatever goes wrong in it, the others stay as they are, except that those which waited for it run
again once it is gone.

* `Level.Isolated`: what a visit of one instance leaves alone.
* `Level.visit_isolated`: every visit, in every level that calls lead to.
-/

namespace LevelScript

namespace Level

/-- What a visit of the instance `i` under `h` leaves alone. -/
structure Isolated (l l' : Level) (h : Handle) (i : Instance) : Prop where
  /-- Another instance stays as it is, or it waited for the visited one, which is gone. -/
  others : ∀ k, k ≠ h → l'.instance? k = l.instance? k ∨
    l'.instance? h = none ∧ ∃ j, l.instance? k = some j ∧ j.status = .scriptWait i.number ∧
      l'.instance? k = some { j with status := .running }
  /-- The registry loses at most the entry of the visited instance. -/
  registry : l'.tracked = l.tracked ∨
    (i.number, h) ∈ l.tracked ∧ l'.tracked = l.tracked.filter (· != (i.number, h))
  stack : l'.stack = #[]
  program : l'.program = l.program
  /-- As many arrays as before, of the same lengths. -/
  arrays : l'.memory.arrays.map Array.size = l.memory.arrays.map Array.size

theorem Isolated.refl {l : Level} (hstack : l.stack = #[]) (h : Handle) (i : Instance) :
    l.Isolated l h i :=
  ⟨fun _ _ => .inl rfl, .inl rfl, hstack, rfl, rfl⟩

/-- Forgetting a script takes its entry out and no other. -/
theorem Sound.forget_eq {l : Level} (hl : l.Sound) {n : Int32} {h : Handle}
    (hfind : l.find? n = some h) : l.tracked.forget n = l.tracked.filter (· != (n, h)) := by
  refine List.filter_congr fun e he => ?_
  by_cases hn : e.1 = n
  · have hone : l.tracked.find? e.1 = some e.2 := (Registry.find?_eq_some_iff hl.keys).mpr he
    have heq : some h = some e.2 := hfind.symm.trans (hn ▸ hone)
    have hown : e = (n, h) := by rw [← hn, Option.some.inj heq]
    rw [hown, bne_self_eq_false, bne_self_eq_false]
  · have hother : e ≠ (n, h) := fun heq => hn (congrArg Prod.fst heq)
    rw [bne_iff_ne.mpr hn, bne_iff_ne.mpr hother]

end Level

namespace Simulation

variable {ω : Type} [Host ω] {s : Simulation ω}

theorem shape_dispatch (s : Simulation ω) (i : Instance) :
    (s.dispatch i).2.level.memory.shape = s.level.memory.shape := by
  rw [dispatch_eq]
  exact (Machine.keeps_run s.level.program s.level.config (s.machine i)).shape

theorem shape_advance (s : Simulation ω) (i : Instance) :
    (s.advance i).2.level.memory.shape = s.level.memory.shape := by
  have hlevel := level_nextStatus s i.status
  unfold advance
  dsimp only
  split
  · rw [shape_dispatch, hlevel]
  · rw [hlevel]

/-- The turn itself, before an instance that ended is removed. -/
theorem isolated_turn (hl : s.level.Sound) (hstack : s.level.stack = #[]) {h : Handle}
    {i : Instance} (hi : s.level.instance? h = some i) :
    s.level.Isolated (s.turn h).level h i := by
  have hturn : s.turn h = (s.advance i).2.seat h (s.advance i).1 := by rw [turn, hi]
  have hturned := (advance_spec s i).2
  refine ⟨fun k hk => .inl ?_, .inl ?_, ?_, ?_, ?_⟩
  · rw [instance?_turn hl hi, if_neg hk]
  · rw [hturn]
    exact hturned.tracked
  · rw [hturn]
    exact hturned.stack.trans hstack
  · rw [hturn]
    exact hturned.program
  · rw [hturn]
    exact shape_advance s i

end Simulation

namespace Level

/-- Removing the visited instance once it has ended. -/
theorem Isolated.remove {l l' : Level} {h : Handle} {i j : Instance} (hl' : l'.Sound)
    (hiso : l.Isolated l' h i) (htracked : l'.tracked = l.tracked)
    (hothers : ∀ k, k ≠ h → l'.instance? k = l.instance? k) (hj : l'.instance? h = some j)
    (hnumber : j.number = i.number) : l.Isolated (l'.remove h) h i := by
  have hkeeps := remove_keeps l' h
  have hfind := instance?_remove hl'.roster hj
  have hgone : (l'.remove h).instance? h = none := by rw [hfind, if_pos rfl]
  refine ⟨fun k hk => ?_, ?_, ?_, ?_, ?_⟩
  · rw [hfind, if_neg hk, hothers k hk, hnumber]
    cases hk' : l.instance? k with
    | none => exact .inl rfl
    | some a =>
      by_cases hwait : a.status = .scriptWait i.number
      · exact .inr ⟨hgone, a, rfl, hwait, by rw [Option.map_some, woken, if_pos hwait]; rfl⟩
      · exact .inl (by rw [Option.map_some, woken, if_neg hwait])
  · rw [remove_frame hj, ← htracked]
    show (l'.without h j).tracked = _ ∨ _ ∧ (l'.without h j).tracked = _
    unfold without
    rw [hnumber]
    by_cases hown : l'.find? i.number = some h
    · rw [if_pos hown]
      exact .inr ⟨(Registry.find?_eq_some_iff hl'.keys).mp hown, hl'.forget_eq hown⟩
    · rw [if_neg hown]
      exact .inl rfl
  · rw [hkeeps]
    exact hiso.stack
  · rw [hkeeps]
    exact hiso.program
  · rw [hkeeps]
    exact hiso.arrays

/-- **A visit touches one instance**, in every level that calls lead to and at every moment of a
call: what the acts before it have done does not matter. -/
theorem visit_isolated {ω : Type} [Host ω] {s : Simulation ω}
    (hs : Reachable Fresh (fun _ => True) s.level) (acts : List Act) {h : Handle} {i : Instance}
    (hi : (s.actAll acts).level.instance? h = some i) :
    (s.actAll acts).level.Isolated ((s.actAll acts).visit h).level h i := by
  have hl := Simulation.sound_actAll hs.atRest.sound acts
  have hstack := (Simulation.stays_actAll s acts).stack hs.atRest.stack
  generalize s.actAll acts = t at hi hl hstack
  have hturn := Simulation.isolated_turn hl hstack hi
  have hfind := Simulation.instance?_turn hl hi
  rw [← Simulation.actAll_visitActs, Simulation.visitActs, hi]
  dsimp only
  split
  · split
    · have hj : (t.turn h).level.instance? h = some (t.advance i).1 := (hfind h).trans (if_pos rfl)
      have hremove : (t.actAll [.turn h, .remove h]).level = (t.turn h).level.remove h := by
        show ((t.turn h).remove h).level = _
        rw [Simulation.remove, hj]
        rfl
      rw [hremove]
      refine hturn.remove (Simulation.sound_act hl (.turn h)) ?_ (fun k hk => ?_) hj
        (Simulation.advance_spec t i).1.number
      · rw [Simulation.turn, hi]
        exact (Simulation.advance_spec t i).2.tracked
      · exact (hfind k).trans (if_neg hk)
    · exact hturn
  · exact .refl hstack h i

end Level

namespace Underflow

/-- Script 2 waits for the end of script 1, which takes a value off its empty stack. -/
def program : Program :=
  { (default : Program) with
    image := #[82, 0, 0, 0, 1, 0, 0, 0, 54, 0, 0, 0]
    layout := .enhanced .wide
    scripts := [{ (default : Script) with number := 1, entry := 8 },
      { (default : Script) with number := 2 }] }

def idle : Simulation StillWorld := ⟨.start program 1 .standard, .empty, default, default⟩

/-- Both scripts are started, and script 2 takes the first turn. -/
def acts : List Act := [.start { script := 1 }, .start { script := 2 }, .turn ⟨1, 0⟩]

/-- The fault ends script 1, and script 2 runs again. -/
theorem visit_isolated_underflow :
    let s := idle.actAll acts
    ∃ i, Level.Reachable Level.Fresh (fun _ => True) idle.level ∧
      s.level.instance? ⟨0, 0⟩ = some i ∧
      (s.level.instance? ⟨1, 0⟩).map (·.status) = some (.scriptWait 1) ∧
      s.level.Isolated (s.visit ⟨0, 0⟩).level ⟨0, 0⟩ i ∧
      (s.visit ⟨0, 0⟩).level.instance? ⟨0, 0⟩ = none ∧
      ((s.visit ⟨0, 0⟩).level.instance? ⟨1, 0⟩).map (·.status) = some .running := by
  intro s
  have hfacts : (s.level.instance? ⟨0, 0⟩).isSome = true ∧
      (s.level.instance? ⟨1, 0⟩).map (·.status) = some (.scriptWait 1) ∧
      (s.visit ⟨0, 0⟩).level.instance? ⟨0, 0⟩ = none ∧
      ((s.visit ⟨0, 0⟩).level.instance? ⟨1, 0⟩).map (·.status) = some .running := by
    decide +kernel
  obtain ⟨hvisited, hwaiting, hgone, hrunning⟩ := hfacts
  obtain ⟨i, hi⟩ := Option.isSome_iff_exists.mp hvisited
  have hidle : Level.Reachable Level.Fresh (fun _ => True) idle.level :=
    .origin (.start program 1 .standard)
  exact ⟨i, hidle, hi, hwaiting, Level.visit_isolated hidle acts hi, hgone, hrunning⟩

end Underflow

end LevelScript
