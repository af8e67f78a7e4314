import LevelScript.Proofs.Image.Accepted
import LevelScript.Proofs.Level.Isolation
import LevelScript.Proofs.Machine.Stops

/-!
# Levels that can be saved

A level that was reached by playing can be restored from its own snapshot, except where an
instance stands right behind the image. It is at rest there if its last instruction made it wait
and was the end of the image; restoring asks for an offset in the image.

* `Level.Storable`: what restoring checks, with the bound that turns keep.
* `Level.Storable.restore_cases`: what restoring such a level from its snapshot comes to.
* `Level.restore_snapshot_iff_in_image`: levels that were reached by playing.
-/

namespace LevelScript

/-- What restoring asks of an instance, but with the end of the image allowed. -/
structure Instance.Storable (program : Program) (config : Config) (i : Instance) : Prop where
  script : (program.findScript i.number).isSome = true
  segment : i.segment.size ≤ config.stackCapacity
  pc : i.pc.toNat ≤ program.image.size

/-- What restoring asks of a level. -/
structure Level.Storable (l : Level) : Prop where
  sound : l.Sound
  entries : ∀ script ∈ l.program.scripts, script.entry.toNat < l.program.image.size
  shape : l.memory.shape = l.program.memory.shape
  instances : ∀ h i, l.instance? h = some i → i.Storable l.program l.config

/-! ## Instances -/

theorem Level.Aside.storable {program : Program} {config : Config} {l : Level} {a : Act}
    {h : Handle} {i j : Instance} (hside : l.Aside a h i j) (hi : i.Storable program config) :
    j.Storable program config := by
  cases hside <;> exact ⟨hi.script, hi.segment, hi.pc⟩

theorem Level.IsNew.storable {program : Program} {config : Config} {i : Instance}
    (hi : IsNew program i)
    (hentries : ∀ script ∈ program.scripts, script.entry.toNat < program.image.size) :
    i.Storable program config := by
  obtain ⟨script, leastLocals, args, activator, line, side, hscript, rfl⟩ := hi
  have hmem : script ∈ program.scripts := List.mem_of_find?_eq_some hscript
  refine ⟨?_, Nat.zero_le _, Nat.le_of_lt (hentries script hmem)⟩
  exact Option.isSome_iff_exists.mpr ⟨script, hscript⟩

namespace Simulation

variable {ω : Type} [Host ω] {s : Simulation ω}

/-- An instance that runs and does not end stops in the image, and its part of the stack fits. -/
theorem stops_dispatch {i : Instance} (hrun : i.status = .running)
    (hlive : (s.dispatch i).1.status.isTerminal = false) :
    (s.dispatch i).1.segment.size ≤ s.level.config.stackCapacity ∧
      (s.dispatch i).1.pc.toNat ≤ s.level.program.image.size := by
  rw [dispatch_eq] at hlive ⊢
  dsimp only at hlive ⊢
  have hsegment := Machine.segment_run s.level.program s.level.config (s.machine i)
  have hstops := Machine.stops_run s.level.program s.level.config (m := s.machine i) hrun
  refine ⟨hsegment, hstops.resolve_left fun hended => ?_⟩
  rw [hended] at hlive
  cases hlive

/-- An instance that does not end in its turn can be saved after it. -/
theorem storable_advance {i : Instance} (hi : i.Storable s.level.program s.level.config)
    (hlive : (s.advance i).1.status.isTerminal = false) :
    (s.advance i).1.Storable s.level.program s.level.config := by
  have hscript : (s.level.program.findScript (s.advance i).1.number).isSome = true := by
    rw [(advance_spec s i).1.number]
    exact hi.script
  have hlevel := level_nextStatus s i.status
  unfold advance at hlive hscript ⊢
  dsimp only at hlive hscript ⊢
  rw [hlevel] at hlive hscript ⊢
  split
  · rename_i hrun
    rw [if_pos hrun] at hlive hscript
    have hstops := stops_dispatch (s := (s.nextStatus i.status).2) hrun hlive
    rw [hlevel] at hstops
    exact ⟨hscript, hstops.1, hstops.2⟩
  · exact ⟨hi.script, hi.segment, hi.pc⟩

/-! ## The map's memory -/

theorem shape_act (s : Simulation ω) (a : Act) :
    (s.act a).level.memory.shape = s.level.memory.shape := by
  by_cases ha : ∃ h, a = .turn h
  · obtain ⟨h, rfl⟩ := ha
    show (s.turn h).level.memory.shape = _
    unfold turn
    split
    · rfl
    · exact shape_advance s _
  · have hs := step_act s a
    generalize (s.act a).level = l' at hs ⊢
    cases hs with
    | idle _ shape => exact shape
    | add => rw [Level.add_frame]
    | turn => exact absurd ⟨_, rfl⟩ ha
    | remove => rw [Level.remove_keeps]
    | _ => rfl

theorem shape_actAll (s : Simulation ω) (acts : List Act) :
    (s.actAll acts).level.memory.shape = s.level.memory.shape := by
  induction acts generalizing s with
  | nil => rfl
  | cons a rest ih => exact (ih (s.act a)).trans (shape_act s a)

/-! ## Visits and other acts -/

/-- An act that is not a turn leaves what can be saved. -/
theorem storable_act (hs : s.level.Storable) {a : Act} (ha : a.isTurn = false) :
    (s.act a).level.Storable := by
  have hstays := stays_act s a
  refine ⟨sound_act hs.sound a, ?_, ?_, fun h j hj => ?_⟩
  · rw [hstays.program]
    exact hs.entries
  · rw [shape_act, hstays.program]
    exact hs.shape
  · rw [hstays.program, hstays.config]
    have hnot : a ≠ .turn h := by
      rintro rfl
      cases ha
    rcases accounts_act hs.sound a h j hj hnot with ⟨i, hi, hside⟩ | ⟨-, hnew⟩
    · exact hside.storable (hs.instances h i hi)
    · exact hnew.storable hs.entries

/-- A turn leaves what can be saved of all that did not end in it. -/
theorem storable_turn (hs : s.level.Storable) {h : Handle} {i : Instance}
    (hi : s.level.instance? h = some i) {k : Handle} {j : Instance}
    (hj : (s.turn h).level.instance? k = some j)
    (hlive : k = h → (s.advance i).1.status.isTerminal = false) :
    j.Storable s.level.program s.level.config := by
  rw [instance?_turn hs.sound hi] at hj
  split at hj
  · rename_i hk
    obtain rfl := Option.some.inj hj
    exact storable_advance (hs.instances h i hi) (hlive hk)
  · exact hs.instances k j hj

/-- A visit leaves what can be saved: an instance that ended is gone. -/
theorem storable_visit (hs : s.level.Storable) (h : Handle) : (s.visit h).level.Storable := by
  rw [← actAll_visitActs]
  have hstays := stays_actAll s (s.visitActs h)
  refine ⟨sound_actAll hs.sound _, ?_, ?_, ?_⟩
  · rw [hstays.program]
    exact hs.entries
  · rw [shape_actAll, hstays.program]
    exact hs.shape
  · rw [hstays.program, hstays.config]
    unfold visitActs
    cases hi : s.level.instance? h with
    | none => exact hs.instances
    | some i =>
      dsimp only
      split
      · have hsound := sound_act hs.sound (.turn h)
        split
        · -- Every instance that is left was there after the turn, under another handle.
          intro k j hj
          have hne : k ≠ h := by
            rintro rfl
            exact absurd (hj.symm.trans (instance?_remove_eq_none hsound k (.inl rfl))) (by simp)
          rcases accounts_act hsound (.remove h) k j hj nofun with ⟨i', hi', hside⟩ | ⟨_, hnew⟩
          · exact hside.storable (storable_turn hs hi hi' fun hk => absurd hk hne)
          · rw [(stays_act s (.turn h)).program] at hnew
            exact hnew.storable hs.entries
        · rename_i hlive
          intro k j hj
          exact storable_turn hs hi hj fun _ => by simpa using hlive
      · exact hs.instances

end Simulation

/-! ## Restoring -/

/-- Mapping a list gives an error exactly if some member does, and then it is that of a member. -/
theorem mapM_ok_or_error {α β ε : Type} (f : α → Except ε β) (xs : List α) :
    (∃ ys, xs.mapM f = .ok ys) ∧ (∀ x ∈ xs, ∃ y, f x = .ok y) ∨
      ∃ x ∈ xs, ∃ e, f x = .error e ∧ xs.mapM f = .error e := by
  induction xs with
  | nil => exact .inl ⟨⟨[], rfl⟩, by simp⟩
  | cons x rest ih =>
    rw [List.mapM_cons]
    cases hx : f x with
    | error e => exact .inr ⟨x, List.mem_cons_self, e, hx, rfl⟩
    | ok y =>
      rcases ih with ⟨⟨ys, hys⟩, hall⟩ | ⟨z, hz, e, hfault, herror⟩
      · refine .inl ⟨⟨y :: ys, by rw [hys]; rfl⟩, ?_⟩
        rintro z (_ | ⟨_, hz⟩)
        · exact ⟨y, hx⟩
        · exact hall z hz
      · exact .inr ⟨z, List.mem_cons_of_mem _ hz, e, hfault, by rw [herror]; rfl⟩

/-- Of an instance that can be saved, restoring only refuses the end of the image. -/
theorem Instance.Storable.restore_save {program : Program} {config : Config} {i : Instance}
    (hi : i.Storable program config) (tracked : Bool) :
    (program.image.size.toUInt32 ≤ i.pc ∧
      (i.save tracked).restore program config = .error (.pcOutOfRange i.number i.pc)) ∨
    (i.pc < program.image.size.toUInt32 ∧
      ∃ e, (i.save tracked).restore program config = .ok e) := by
  obtain ⟨script, hscript⟩ := Option.isSome_iff_exists.mp hi.script
  have hfind : program.findScript (i.save tracked).number = some script := hscript
  unfold SavedInstance.restore
  rw [hfind]
  dsimp only
  by_cases hpc : program.image.size.toUInt32 ≤ i.pc
  · exact .inl ⟨hpc, if_pos hpc⟩
  · refine .inr ⟨UInt32.not_le.mp hpc, ((i.save tracked).resume script, tracked), ?_⟩
    exact (if_neg hpc).trans (if_neg (Nat.not_lt.mpr hi.segment))

namespace Level

theorem Storable.memory?_snapshot {l : Level} (hl : l.Storable) :
    l.snapshot.memory? l.program = some l.memory := by
  have hshape : MapMemory.sameShape l.memory.arrays l.program.memory.arrays = true :=
    beq_iff_eq.mpr hl.shape
  unfold Snapshot.memory?
  exact (dif_pos l.memory.vars.size_toArray).trans (if_pos hshape)

/-- Restoring the snapshot of a level that can be saved succeeds if all instances stand in the
image, and else names one that does not. -/
theorem Storable.restore_cases {l : Level} (hl : l.Storable) :
    (∃ l', restore l.program l.snapshot l.config = .ok l') ∧
      (∀ i ∈ l.instances, i.pc < l.program.image.size.toUInt32) ∨
    ∃ i ∈ l.instances, l.program.image.size.toUInt32 ≤ i.pc ∧
      restore l.program l.snapshot l.config = .error (.pcOutOfRange i.number i.pc) := by
  have hentry : ∀ e ∈ l.roster.entries, e.2.Storable l.program l.config := fun e he =>
    hl.instances e.1 e.2 ((Roster.mem_entries_iff hl.sound.roster).mp he)
  have hsaved : l.snapshot.instances =
      l.roster.entries.map fun e => e.2.save (l.find? e.2.number == some e.1) := rfl
  unfold restore
  rw [if_neg (fun hne => hne rfl), hl.memory?_snapshot]
  dsimp only
  rcases mapM_ok_or_error (SavedInstance.restore l.program l.config) l.snapshot.instances with
    ⟨⟨ys, hys⟩, hall⟩ | ⟨saved, hmem, error, hfault, herror⟩
  · refine .inl ⟨⟨_, by rw [hys]; rfl⟩, fun i hi => ?_⟩
    obtain ⟨e, he, rfl⟩ := List.mem_map.mp hi
    obtain ⟨y, hy⟩ := hall (e.2.save (l.find? e.2.number == some e.1))
      (hsaved ▸ List.mem_map_of_mem he)
    rcases (hentry e he).restore_save (l.find? e.2.number == some e.1) with
      ⟨-, hrefused⟩ | ⟨hpc, -⟩
    · rw [hrefused] at hy
      cases hy
    · exact hpc
  · rw [hsaved] at hmem
    obtain ⟨e, he, rfl⟩ := List.mem_map.mp hmem
    refine .inr ⟨e.2, List.mem_map_of_mem he, ?_⟩
    rcases (hentry e he).restore_save (l.find? e.2.number == some e.1) with
      ⟨hpc, hrefused⟩ | ⟨-, y, hy⟩
    · rw [hrefused] at hfault
      cases hfault
      exact ⟨hpc, by rw [herror]; rfl⟩
    · rw [hy] at hfault
      cases hfault

/-! ## Playing -/

theorem storable_start {image : Image} {program : Program} (h : image.Keeps program) (map : Int32)
    (config : Config) : (start program map config).Storable := by
  obtain ⟨himage, hentries⟩ := h
  refine ⟨sound_start program map config, ?_, rfl, fun h i hi => ?_⟩
  · show ∀ script ∈ program.scripts, script.entry.toNat < program.image.size
    rw [himage]
    exact hentries
  · have hmem : (h, i) ∈ Roster.empty.entries :=
      (Roster.mem_entries_iff Roster.sound_empty).mpr hi
    exact absurd hmem List.not_mem_nil

/-- A level that was reached by playing can be saved, and has kept its program and settings. -/
theorem storable_of_reachable {image : Image} {program : Program} (h : image.Keeps program)
    {map : Int32} {config : Config} {l : Level}
    (hl : l.Reachable (· = start program map config) fun _ => True) :
    l.Storable ∧ l.program = program ∧ l.config = config := by
  induction hl with
  | origin horigin =>
    obtain rfl := horigin
    exact ⟨storable_start h map config, rfl, rfl⟩
  | @run ω _ s op _ _ ih =>
    obtain ⟨hs, hprogram, hconfig⟩ := ih
    have hstays := Simulation.stays_actAll s (op.acts s)
    rw [← op.run_eq_acts s] at hstays
    refine ⟨?_, hstays.program.trans hprogram, hstays.config.trans hconfig⟩
    exact Operation.run_induct (P := fun s => s.level.Storable)
      (fun _ _ ha hs => Simulation.storable_act hs ha)
      (fun _ h hs => Simulation.storable_visit hs h) hs op

/-- **What a snapshot needs to be restored.** Restoring a level that was reached by playing, on
another load of its image, succeeds exactly if all instances stand in the image. Nothing else is
refused, and an instance that is not in the image stands right behind it. -/
theorem restore_snapshot_iff_in_image {image : Image} {encoding : Text.Encoding}
    {program again : Program} {j₁ j₂ k₁ k₂ : Journal}
    (hload : image.load encoding j₁ = .ok program j₂)
    (hagain : image.load encoding k₁ = .ok again k₂) {map : Int32} {config : Config} {l : Level}
    (hl : l.Reachable (· = start program map config) fun _ => True) :
    ((∃ l', restore again l.snapshot config = .ok l') ↔
      ∀ i ∈ l.instances, i.pc < image.size.toUInt32) ∧
    (∀ e, restore again l.snapshot config = .error e →
      ∃ i ∈ l.instances, image.size.toUInt32 ≤ i.pc ∧ e = .pcOutOfRange i.number i.pc) ∧
    ∀ i ∈ l.instances, i.pc.toNat ≤ image.size := by
  obtain ⟨hgives, hkeeps⟩ := Image.ensures_load image encoding j₁ program j₂ hload
  obtain rfl : program = again :=
    hgives.unique (Image.ensures_load image encoding k₁ again k₂ hagain).1
  obtain ⟨hstorable, rfl, rfl⟩ := storable_of_reachable hkeeps hl
  have hcases := hstorable.restore_cases
  rw [hkeeps.1] at hcases
  refine ⟨⟨fun hok => ?_, fun hall => ?_⟩, fun e he => ?_, fun i hi => ?_⟩
  · obtain ⟨l', hl'⟩ := hok
    rcases hcases with ⟨-, hall⟩ | ⟨i, -, -, herror⟩
    · exact hall
    · rw [herror] at hl'
      cases hl'
  · rcases hcases with ⟨hok, -⟩ | ⟨i, hi, hpc, -⟩
    · exact hok
    · exact absurd (hall i hi) (UInt32.not_lt.mpr hpc)
  · rcases hcases with ⟨⟨l', hl'⟩, -⟩ | ⟨i, hi, hpc, herror⟩
    · rw [hl'] at he
      cases he
    · rw [herror] at he
      cases he
      exact ⟨i, hi, hpc, rfl⟩
  · obtain ⟨entry, he, rfl⟩ := List.mem_map.mp hi
    have hinst := (Roster.mem_entries_iff hstorable.sound.roster).mp he
    rw [← hkeeps.1]
    exact (hstorable.instances entry.1 entry.2 hinst).pc

end Level

namespace LastWord

open Simulation

/-- Script 1 suspends itself, and `rest` follows. -/
def image (rest : Array UInt8) : Image :=
  #[65, 67, 83, 0, 8, 0, 0, 0, 1, 0, 0, 0, 1, 0, 0, 0, 0, 0, 0, 0, 28, 0, 0, 0, 0, 0, 0, 0,
    2, 0, 0, 0] ++ rest

def idle (program : Program) : Simulation StillWorld :=
  ⟨.start program 1 .standard, .empty, default, default⟩

/-- Script 1 was launched, and waits. -/
def suspended (program : Program) : Simulation StillWorld :=
  (((idle program).start { script := 1 }).2.dropReady.visit ⟨0, 0⟩).reap

/-- The instance was launched, and stands at offset 32. -/
def standsBehind (program : Program) : Bool :=
  let started := ((idle program).start { script := 1 }).2
  let visited := started.dropReady.visit ⟨0, 0⟩
  started.level.pending.isEmpty && started.level.ready == [⟨0, 0⟩] &&
    visited.level.pending.isEmpty && visited.level.ready.isEmpty &&
    (suspended program).level.instances.map (fun i => (i.number, i.pc)) == [(1, 32)]

theorem run_suspended {program : Program} (h : standsBehind program = true) :
    (Operation.run (idle program) (.launch { script := 1 })).2 = suspended program := by
  simp only [standsBehind, Bool.and_eq_true, List.isEmpty_iff, beq_iff_eq] at h
  obtain ⟨⟨⟨⟨hpending, hready⟩, hpending'⟩, hready'⟩, -⟩ := h
  exact Operation.run_launch rfl hpending hready hpending' hready'

theorem reachable_suspended {program : Program} (h : standsBehind program = true) :
    (suspended program).level.Reachable (· = .start program 1 .standard) fun _ => True := by
  have hidle : (idle program).level.Reachable (· = .start program 1 .standard) fun _ => True :=
    .origin rfl
  exact run_suspended h ▸ hidle.run trivial

theorem instances_suspended {program : Program} (h : standsBehind program = true) :
    ∃ i, (suspended program).level.instances = [i] ∧ i.number = 1 ∧ i.pc = 32 := by
  simp only [standsBehind, Bool.and_eq_true, beq_iff_eq] at h
  obtain ⟨i, hi, hplace⟩ := List.map_eq_singleton_iff.mp h.2
  obtain ⟨hnumber, hpc⟩ := Prod.mk.inj hplace
  exact ⟨i, hi, hnumber, hpc⟩

/-- Whether the image is accepted and its script stops at offset 32. -/
def accepted (rest : Array UInt8) : Bool :=
  match (image rest).load .utf8 default with
  | .ok program _ => standsBehind program
  | .error _ _ => false

theorem exists_program {rest : Array UInt8} (h : accepted rest = true) :
    ∃ program j, (image rest).load .utf8 default = .ok program j ∧
      standsBehind program = true := by
  unfold accepted at h
  split at h
  · rename_i program j hload
    exact ⟨program, j, hload, h⟩
  · cases h

/-- If an instruction follows, the level is restored. -/
theorem restore_snapshot_iff_in_image_suspended :
    ∃ program j i, (image #[1, 0, 0, 0]).load .utf8 default = .ok program j ∧
      (suspended program).level.Reachable (· = .start program 1 .standard) (fun _ => True) ∧
      (suspended program).level.instances = [i] ∧ i.pc = 32 ∧
      ∃ l', Level.restore program (suspended program).level.snapshot .standard = .ok l' := by
  have haccepted : accepted #[1, 0, 0, 0] = true := by decide +kernel
  obtain ⟨program, j, hload, hstands⟩ := exists_program haccepted
  obtain ⟨i, hinstances, -, hpc⟩ := instances_suspended hstands
  have hreach := reachable_suspended hstands
  refine ⟨program, j, i, hload, hreach, hinstances, hpc, ?_⟩
  refine (Level.restore_snapshot_iff_in_image hload hload hreach).1.mpr fun k hk => ?_
  rw [hinstances, List.mem_singleton] at hk
  rw [hk, hpc]
  decide

/-- If the image ends there, the level can be saved but not restored. -/
theorem not_restored_behind_image :
    ∃ program j, (image #[]).load .utf8 default = .ok program j ∧
      (suspended program).level.Reachable (· = .start program 1 .standard) (fun _ => True) ∧
      Level.restore program (suspended program).level.snapshot .standard =
        .error (.pcOutOfRange 1 32) := by
  have haccepted : accepted #[] = true := by decide +kernel
  obtain ⟨program, j, hload, hstands⟩ := exists_program haccepted
  obtain ⟨i, hinstances, hnumber, hpc⟩ := instances_suspended hstands
  have hreach := reachable_suspended hstands
  refine ⟨program, j, hload, hreach, ?_⟩
  obtain ⟨-, hkeeps⟩ := Image.ensures_load _ _ _ _ _ hload
  obtain ⟨hstorable, hprogram, hconfig⟩ := Level.storable_of_reachable hkeeps hreach
  have hcases := hstorable.restore_cases
  rw [hprogram, hconfig, hkeeps.1, hinstances] at hcases
  rcases hcases with ⟨-, hall⟩ | ⟨k, hk, -, herror⟩
  · have hlt := hall i (List.mem_singleton_self i)
    rw [hpc] at hlt
    exact absurd hlt (by decide)
  · obtain rfl := List.mem_singleton.mp hk
    rwa [hnumber, hpc] at herror

end LastWord

end LevelScript
