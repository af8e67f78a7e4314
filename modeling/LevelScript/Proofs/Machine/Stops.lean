import LevelScript.Proofs.Machine.Decoding

/-!
# Where an instance stops

Only an instruction that does not jump makes an instance wait, so an instance that waits has read
its last instruction to the end and stands in the image or right behind it. What it has left on the
stack fits the stack.

* `Machine.stops_run`: the offset after a turn.
* `Machine.segment_run`: the instance's part of the stack after a turn.
-/

namespace LevelScript

/-- Operands are read from the image, and the reading ends in it. -/
theorem Operands.next_le_size {width : CodeWidth} {image : Image} {pc raw next : UInt32}
    (h : Code.readNumber width image pc = .ok (raw, next)) (layout : List OperandKind) :
    (Operands.read width image layout next).next.toNat ≤ image.size := by
  by_cases hsize : image.size < 2 ^ 32
  · have hwithin : (Operands.read width image layout next).Within image next :=
      Operands.Within.readFrom hsize layout
        ⟨fun _ => Nat.le_refl _, (Code.ahead_readNumber hsize h).le⟩
    exact hwithin.room
  · exact Nat.le_of_lt (Nat.lt_of_lt_of_le (UInt32.toNat_lt _) (Nat.not_lt.mp hsize))

namespace Exec

variable {ω : Type} [Host ω] {ctx : Context} {m m' : Machine ω}

/-- An instruction leaves the instance running, or it ends in the image. -/
theorem stops_stepWhole (hrun : m.inst.status = .running) (h : stepWhole ctx m = .ok () m') :
    m'.inst.status = .running ∨ m'.inst.pc.toNat ≤ ctx.program.image.size := by
  cases hnumber : Code.readNumber ctx.program.codeWidth ctx.program.image m.inst.pc with
  | error f =>
    rw [stepWhole_of_error hnumber] at h
    cases h
  | ok r =>
    obtain ⟨raw, next⟩ := r
    rw [stepWhole_of_ok hnumber] at h
    unfold obey at h
    cases hop : Opcode.ofNumber? raw with
    | none =>
      rw [hop] at h
      cases h
      exact .inl hrun
    | some op =>
      rw [hop] at h
      dsimp only at h
      rw [bind_ok (x := note _) rfl] at h
      cases hfault :
        (Operands.read ctx.program.codeWidth ctx.program.image op.layout next).fault with
      | some f =>
        rw [executeAfter_of_fault hfault] at h
        obtain ⟨g, pushed, -, hstop⟩ := stopAtOperands_spec op (Operands.read
          ctx.program.codeWidth ctx.program.image op.layout next).values f ctx
          { m with journal := m.journal.note (.executing m.inst.number m.inst.pc op) }
        rw [hstop] at h
        cases h
      | none =>
        rw [executeAfter_of_whole hfault] at h
        have hkeeps := (makes_executeWith op (Operands.read ctx.program.codeWidth
          ctx.program.image op.layout next).values ctx (Machine.moveTo
            { m with journal := m.journal.note (.executing m.inst.number m.inst.pc op) }
            (Operands.read ctx.program.codeWidth ctx.program.image op.layout next).next)).keeps
        rw [h] at hkeeps
        cases hjumps : op.jumps with
        | true =>
          rw [hjumps] at hkeeps
          exact .inl ((hkeeps.status rfl).trans hrun)
        | false =>
          rw [hjumps] at hkeeps
          refine .inr ?_
          rw [show m'.inst.pc = _ from hkeeps.pc rfl]
          exact Operands.next_le_size hnumber op.layout

end Exec

namespace Machine

variable {ω : Type} [Host ω] {ctx : Context} {m : Machine ω}

/-- A step leaves the instance running, ends it, or stops in the image. -/
theorem stops_step (hrun : m.inst.status = .running) :
    (m.step ctx).inst.status = .running ∨ (m.step ctx).inst.status = .pleaseRemove ∨
      (m.step ctx).inst.pc.toNat ≤ ctx.program.image.size := by
  rw [step_eq]
  cases h : Exec.stepWhole ctx m with
  | ok u m' =>
    rcases Exec.stops_stepWhole hrun h with hrun' | hpc
    · exact .inl hrun'
    · exact .inr (.inr hpc)
  | error f m' => exact .inr (.inl rfl)

/-- Steps one after the other end the instance or stop in the image. -/
theorem stops_loop (hrun : m.inst.status = .running) (fuel : Nat) :
    (m.loop ctx fuel).2.inst.status = .pleaseRemove ∨
      (m.loop ctx fuel).2.inst.pc.toNat ≤ ctx.program.image.size := by
  induction fuel generalizing m with
  | zero =>
    rw [loop, if_pos hrun]
    exact .inl rfl
  | succ fuel ih =>
    rw [loop, if_pos hrun]
    by_cases hrun' : (m.step ctx).inst.status = .running
    · exact ih hrun'
    · rw [loop_of_stopped hrun']
      exact (stops_step hrun).resolve_left hrun'

/-- After a turn the instance has ended, or stands in the image or right behind it. -/
theorem stops_run (program : Program) (config : Config) (hrun : m.inst.status = .running) :
    (m.run program config).2.inst.status = .pleaseRemove ∨
      (m.run program config).2.inst.pc.toNat ≤ program.image.size := by
  unfold run
  dsimp only
  split
  · exact .inl rfl
  · have hresume : m.resume.inst.status = .running := hrun
    have hloop : (m.resume.loop ⟨program, config, m.stack.size⟩
        config.instructionLimit.toNat).2.inst.status = .pleaseRemove ∨
        (m.resume.loop ⟨program, config, m.stack.size⟩
          config.instructionLimit.toNat).2.inst.pc.toNat ≤ program.image.size :=
      stops_loop hresume _
    generalize (m.resume.loop ⟨program, config, m.stack.size⟩ config.instructionLimit.toNat).2 = m'
      at hloop ⊢
    dsimp only [spill]
    unfold endDivision
    split
    · exact .inl rfl
    · exact .inl rfl
    · exact hloop

theorem Change.stack_size {moves yields : Bool} {m' : Machine ω}
    (h : Change ctx moves yields m m') (hm : m.stack.size ≤ ctx.config.stackCapacity) :
    m'.stack.size ≤ ctx.config.stackCapacity := by
  cases h with
  | push s room =>
    rw [Array.size_push]
    exact room
  | pop own =>
    rw [Array.size_pop]
    omega
  | overwrite slot v own =>
    rw [Array.size_setIfInBounds]
    exact hm
  | truncate depth =>
    rw [Array.size_shrink]
    omega
  | _ => exact hm

/-- What an instance leaves on the stack fits the stack. -/
theorem segment_run (program : Program) (config : Config) (m : Machine ω) :
    (m.run program config).2.inst.segment.size ≤ config.stackCapacity := by
  rcases changes_run program config m with ⟨-, hrun⟩ | ⟨hroom, m', hchanges, hrun⟩
  · rw [hrun]
    exact Nat.zero_le _
  · have hresume : m.resume.stack.size ≤ config.stackCapacity := by
      simpa [resume] using hroom
    have hstack := hchanges.keep (P := fun m => m.stack.size ≤ config.stackCapacity)
      (fun _ _ h => h.stack_size) hresume
    rw [hrun]
    dsimp only [spill]
    split
    · exact Nat.zero_le _
    · rw [Array.size_extract]
      omega

end Machine

end LevelScript
