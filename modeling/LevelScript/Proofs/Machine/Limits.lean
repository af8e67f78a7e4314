import LevelScript.Proofs.Level.Trails

/-!
# Limits of a turn

A turn has a limit for the instructions that it executes and one for the stack. A turn that meets
neither does not depend on them, and one that meets a limit ends its instance.

* `Machine.loop_left`: the instructions are counted.
* `Machine.status_run`: how a turn may leave its instance.
* `Machine.limits_matter_only_if_hit`: higher limits change nothing for a turn that meets none.
-/

namespace LevelScript

/-- Whether a diagnostic tells that a limit was met. -/
def Diagnostic.tellsLimit : Diagnostic → Bool
  | .cannotResume _ (.stackOverflow _) | .aborted _ _ (.stackOverflow _) | .runaway _ _ => true
  | _ => false

namespace Machine

/-- The instance has ended, and the last note tells that it was for a limit. -/
structure CutOff {ω : Type} (m : Machine ω) : Prop where
  status : m.inst.status = .pleaseRemove
  noted : ∃ (j : Journal) (d : Diagnostic), d.tellsLimit = true ∧ m.journal = j.note d

variable {ω : Type} [Host ω] {ctx : Context} {m : Machine ω} {fuel : Nat}

/-- Each instant takes one of the steps that are left. -/
theorem loop_left (ctx : Context) (fuel : Nat) (m : Machine ω) :
    (m.loop ctx fuel).1 + (m.instants ctx fuel).length = fuel := by
  induction fuel generalizing m with
  | zero =>
    unfold loop
    split
    · rfl
    · rfl
  | succ fuel ih =>
    unfold loop instants
    split
    · rw [List.length_cons, ← Nat.add_assoc, ih]
    · rfl

omit [Host ω] in
theorem endDivision_of_ended (h : m.inst.status = .pleaseRemove) : m.endDivision = m := by
  unfold endDivision
  rw [h]

theorem status_loop (ctx : Context) (fuel : Nat) (m : Machine ω) :
    (m.loop ctx fuel).2.inst.status ≠ .running := by
  induction fuel generalizing m with
  | zero =>
    unfold loop
    split
    · simp [fail]
    · assumption
  | succ fuel ih =>
    unfold loop
    split
    · exact ih _
    · assumption

/-- A turn executes the instructions of its instants. -/
theorem executed_run (program : Program) (config : Config) (m : Machine ω) :
    (m.run program config).1 = (m.runInstants program config).length ∧
      (m.run program config).1 ≤ config.instructionLimit.toNat := by
  have hleft := loop_left ⟨program, config, m.stack.size⟩ config.instructionLimit.toNat m.resume
  unfold run runInstants
  dsimp only
  split
  · exact ⟨rfl, Nat.zero_le _⟩
  · dsimp only
    omega

/-- After a turn the instance waits or has ended. -/
theorem status_run (program : Program) (config : Config) (m : Machine ω) :
    (m.run program config).2.inst.status ∉ [.running, .divideByZero, .modulusByZero] := by
  have hloop :=
    status_loop ⟨program, config, m.stack.size⟩ config.instructionLimit.toNat m.resume
  unfold run
  dsimp only
  split
  · simp [fail]
  · generalize (m.resume.loop ⟨program, config, m.stack.size⟩
      config.instructionLimit.toNat).2 = m' at hloop ⊢
    dsimp only [spill]
    unfold endDivision
    split
    · simp [fail]
    · simp [fail]
    · simp_all

/-! ## Meeting a limit -/

omit [Host ω] in
theorem cutOff_fail (m : Machine ω) {d : Diagnostic} (h : d.tellsLimit = true) :
    (m.fail d).CutOff :=
  ⟨rfl, m.journal, d, h, rfl⟩

theorem cutOff_step (h : Exec.overflowed (Exec.step ctx m) = true) : (m.step ctx).CutOff := by
  unfold step
  cases hstep : Exec.step ctx m with
  | ok u m' => simp [hstep, Exec.overflowed] at h
  | error f m' =>
    cases f with
    | stackOverflow capacity => exact cutOff_fail _ rfl
    | _ => simp [hstep, Exec.overflowed] at h

theorem Overflows.cutOff (h : m.Overflows ctx fuel) : (m.loop ctx fuel).2.CutOff := by
  induction fuel generalizing m with
  | zero => exact h.elim
  | succ fuel ih =>
    obtain ⟨hrunning, hnow | hlater⟩ := h
    · have hend := cutOff_step hnow
      rw [loop, if_pos hrunning, loop_of_stopped (by simp [hend.status])]
      exact hend
    · rw [loop, if_pos hrunning]
      exact ih hlater

theorem RunsAway.cutOff (h : m.RunsAway ctx fuel) : (m.loop ctx fuel).2.CutOff := by
  induction fuel generalizing m with
  | zero =>
    have hrunning : m.inst.status = .running := h
    rw [loop, if_pos hrunning]
    exact cutOff_fail _ rfl
  | succ fuel ih =>
    rw [loop, if_pos h.1]
    exact ih h.2

/-- A turn that meets a limit is the instance's last, and tells of it. -/
theorem HitsLimit.cutOff {program : Program} {config : Config} (h : m.HitsLimit program config) :
    (m.run program config).2.CutOff := by
  unfold run
  dsimp only
  split
  · exact cutOff_fail _ rfl
  · rename_i hroom
    have hend : (m.resume.loop ⟨program, config, m.stack.size⟩
        config.instructionLimit.toNat).2.CutOff := by
      rcases h with hfull | hoverflows | hrunsAway
      · exact absurd hfull hroom
      · exact hoverflows.cutOff
      · exact hrunsAway.cutOff
    rw [endDivision_of_ended hend.status]
    exact ⟨hend.status, hend.noted⟩

/-- With higher limits a turn that meets none is the same. -/
theorem run_of_not_hitsLimit {program : Program} {config : Config} {limit : UInt32} {capacity : Nat}
    (hlimit : config.instructionLimit ≤ limit) (hcapacity : config.stackCapacity ≤ capacity)
    (h : ¬ m.HitsLimit program config) :
    m.run program { config with instructionLimit := limit, stackCapacity := capacity } =
      m.run program config := by
  have hfair : (Coupling.shifted (ω := ω) id program config
      { config with instructionLimit := limit, stackCapacity := capacity } m.stack m.stack True
      m.inst).Fair :=
    Coupling.fair_shifted rfl (Nat.add_le_add_right hcapacity _) (fun hs => absurd trivial hs)
      fun _ => rfl
  obtain ⟨hcount, hstack, hstack', halike⟩ :=
    Coupling.run_shifted hfair hlimit fun hhits => absurd hhits h
  have hmachine := halike.eq_of_shifted
  have hjournal : (m.run program config).2.journal.mapFault id =
    (run program { config with instructionLimit := limit, stackCapacity := capacity }
      { m with stack := m.stack }).2.journal.mapFault id := halike.journal
  rw [Journal.mapFault_id, Journal.mapFault_id] at hjournal
  rw [hstack', ← hjournal] at hmachine
  refine Prod.ext hcount.symm (hmachine.trans ?_)
  rw [← hstack]

/-- **Limits matter only to turns that meet them.** With a higher limit for instructions, a higher
one for the stack, or both, a turn that meets neither executes as many instructions, leaves the
same behind and asks the same of its host. A turn that meets a limit is the instance's last, and
tells of it. Any turn executes as many instructions as it has instants, no more than the limit, and
leaves its instance waiting or ended. -/
theorem limits_matter_only_if_hit (program : Program) (config : Config) (m : Machine (Recorded ω)) :
    (¬ m.HitsLimit program config → ∀ (limit : UInt32) (capacity : Nat),
      config.instructionLimit ≤ limit → config.stackCapacity ≤ capacity →
      m.run program { config with instructionLimit := limit, stackCapacity := capacity } =
        m.run program config) ∧
    (m.HitsLimit program config → (m.run program config).2.CutOff) ∧
    (m.run program config).1 = (m.runInstants program config).length ∧
    (m.run program config).1 ≤ config.instructionLimit.toNat ∧
    (m.run program config).2.inst.status ∉ [.running, .divideByZero, .modulusByZero] :=
  ⟨fun h _ _ hlimit hcapacity => run_of_not_hitsLimit hlimit hcapacity h, HitsLimit.cutOff,
    (executed_run program config m).1, (executed_run program config m).2,
    status_run program config m⟩

end Machine

namespace Exhausted

/-- A number is pushed, and the instance waits for a tick. -/
def program : Program :=
  { (default : Program) with image := #[167, 5, 173, 1, 1], layout := .enhanced .compact }

/-- An instance without slots of its own, above one of another. -/
def machine : Machine (Recorded StillWorld) where
  inst := default
  stack := #[.value 1]
  memory := default
  session := .empty
  world := ⟨default, []⟩
  requests := #[]
  journal := .empty (some .error)

def config : Config := { Config.standard with instructionLimit := 2, stackCapacity := 2 }

/-- The turn uses the last slot and the last instruction, and meets no limit. -/
theorem not_hitsLimit :
    ¬ machine.HitsLimit program config ∧ (machine.run program config).1 = 2 := by
  decide +kernel

theorem limits_matter_only_if_hit_exhausted :
    ¬ machine.HitsLimit program config ∧ (machine.run program config).1 = 2 ∧
    machine.run program { config with instructionLimit := 500000, stackCapacity := 4096 } =
      machine.run program config := by
  obtain ⟨hnot, hcount⟩ := not_hitsLimit
  have hlimit : config.instructionLimit ≤ 500000 := by decide
  have hcapacity : config.stackCapacity ≤ 4096 := by decide
  exact ⟨hnot, hcount,
    (Machine.limits_matter_only_if_hit program config machine).1 hnot 500000 4096 hlimit hcapacity⟩

end Exhausted

end LevelScript
