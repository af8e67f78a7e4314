import Mathlib.Data.List.Chain
import LevelScript.Proofs.Level.Dormancy
import LevelScript.Proofs.Machine.Stops

/-!
# Trails

What an instance executes is spread over its turns. Between two of them it keeps its place: where it
is in the program, and its part of the operand stack. So one instruction finds the place as the one
before left it, also if it is in a later turn.

* `Instant`: an instance that is about to execute an instruction.
* `trail`: the instants of an instance, as long as it is there.
* `Course.chain_trail`: each instant goes on where the one before ended.
-/

namespace LevelScript

/-- Where an instance is in its program, and what it has on the stack. -/
structure Place where
  pc : UInt32
  frame : Frame
  function : Option UInt32
  slots : Array Slot
  deriving DecidableEq

def Instance.place (i : Instance) : Place := ⟨i.pc, i.frame, i.function, i.segment⟩

/-- While its instance runs, a machine has its slots above those of others. -/
def Machine.place {ω : Type} (ctx : Context) (m : Machine ω) : Place :=
  ⟨m.inst.pc, m.inst.frame, m.inst.function, m.stack.extract ctx.base m.stack.size⟩

/-- An instance that is about to execute an instruction. -/
structure Instant (ω : Type) where
  ctx : Context
  machine : Machine ω

namespace Instant

variable {ω : Type}

def here (x : Instant ω) : Place := x.machine.place x.ctx

/-- The machine runs a level's program, and its stack fits. -/
structure Within (l : Level) (x : Instant ω) : Prop where
  program : x.ctx.program = l.program
  config : x.ctx.config = l.config
  base_le : x.ctx.base ≤ x.machine.stack.size
  size_le : x.machine.stack.size ≤ l.config.stackCapacity

variable [Host ω]

/-- The machine when the instruction has been executed. -/
def next (x : Instant ω) : Machine ω := x.machine.step x.ctx

def after (x : Instant ω) : Place := x.next.place x.ctx

/-- The instance goes on where the instruction left it. -/
structure Precedes (x y : Instant ω) : Prop where
  alive : x.next.inst.status ≠ .pleaseRemove
  here : y.here = x.after

end Instant

/-! ## Turns of a machine -/

namespace Machine

variable {ω : Type}

theorem place_resume (program : Program) (config : Config) (m : Machine ω) :
    m.resume.place ⟨program, config, m.stack.size⟩ = m.inst.place := by
  simp [place, resume, Instance.place]

variable [Host ω] {ctx : Context} {m m' : Machine ω} {fuel : Nat}

/-- The instants at which `loop` makes its steps. -/
def instants (ctx : Context) : Nat → Machine ω → List (Instant ω)
  | 0, _ => []
  | fuel + 1, m =>
    if m.inst.status = .running then ⟨ctx, m⟩ :: instants ctx fuel (m.step ctx) else []

theorem head?_instants {x : Instant ω} (hx : x ∈ (instants ctx fuel m).head?) :
    m.inst.status = .running ∧ x = ⟨ctx, m⟩ := by
  cases fuel with
  | zero => cases hx
  | succ fuel =>
    unfold instants at hx
    split at hx
    next hrun =>
      cases hx
      exact ⟨hrun, rfl⟩
    next => cases hx

theorem chain_instants (ctx : Context) (fuel : Nat) (m : Machine ω) :
    (instants ctx fuel m).IsChain Instant.Precedes := by
  induction fuel generalizing m with
  | zero => exact .nil
  | succ fuel ih =>
    unfold instants
    split
    · refine List.isChain_cons.mpr ⟨fun y hy => ?_, ih _⟩
      obtain ⟨hrun, rfl⟩ := head?_instants hy
      exact ⟨by simp [Instant.next, hrun], rfl⟩
    · exact .nil

theorem changes_of_mem_instants {x : Instant ω} (hx : x ∈ instants ctx fuel m) :
    x.ctx = ctx ∧ Changes ctx true true m x.machine := by
  induction fuel generalizing m with
  | zero => cases hx
  | succ fuel ih =>
    unfold instants at hx
    split at hx
    · rcases List.mem_cons.mp hx with rfl | hrest
      · exact ⟨rfl, .refl⟩
      · obtain ⟨hctx, hchanges⟩ := ih hrest
        exact ⟨hctx, (changes_step ctx m).trans hchanges⟩
    · cases hx

/-- The last instant leaves the machine that the loop ends with, unless the instance is ended for
running too long. -/
theorem loop_instants (ctx : Context) (fuel : Nat) (m : Machine ω) :
    (m.loop ctx fuel).2.inst.status = .pleaseRemove ∨
    (m.loop ctx fuel).2 = (instants ctx fuel m).getLast?.elim m Instant.next := by
  induction fuel generalizing m with
  | zero =>
    unfold loop
    split
    · exact .inl rfl
    · exact .inr rfl
  | succ fuel ih =>
    unfold loop instants
    split
    · rcases ih (m.step ctx) with hend | hlast
      · exact .inl hend
      · refine .inr (hlast.trans ?_)
        cases instants ctx fuel (m.step ctx) with
        | nil => rfl
        | cons x xs => simp [List.getLast?_cons]
    · exact .inr rfl

omit [Host ω] in
/-- Whatever is done, the slots of others stay. -/
theorem Change.base_le {moves yields : Bool} [Host ω] (h : Change ctx moves yields m m')
    (hm : ctx.base ≤ m.stack.size) : ctx.base ≤ m'.stack.size := by
  cases h with
  | push s room =>
    rw [Array.size_push]
    omega
  | pop own =>
    rw [Array.size_pop]
    omega
  | overwrite slot v own =>
    rw [Array.size_setIfInBounds]
    exact hm
  | truncate depth =>
    rw [Array.size_shrink]
    omega
  | _ => exact hm

/-- The instants of a turn. -/
def runInstants (program : Program) (config : Config) (m : Machine ω) : List (Instant ω) :=
  if config.stackCapacity < m.stack.size + m.inst.segment.size then []
  else m.resume.instants ⟨program, config, m.stack.size⟩ config.instructionLimit.toNat

theorem chain_runInstants (program : Program) (config : Config) (m : Machine ω) :
    (m.runInstants program config).IsChain Instant.Precedes := by
  unfold runInstants
  split
  · exact .nil
  · exact chain_instants _ _ _

theorem head?_runInstants {program : Program} {config : Config} {x : Instant ω}
    (hx : x ∈ (m.runInstants program config).head?) : x.here = m.inst.place := by
  unfold runInstants at hx
  split at hx
  next => cases hx
  next =>
    obtain ⟨-, rfl⟩ := head?_instants hx
    exact place_resume program config m

theorem of_mem_runInstants {program : Program} {config : Config} {x : Instant ω}
    (hx : x ∈ m.runInstants program config) :
    x.ctx = ⟨program, config, m.stack.size⟩ ∧ x.ctx.base ≤ x.machine.stack.size ∧
    x.machine.stack.size ≤ config.stackCapacity := by
  unfold runInstants at hx
  split at hx
  next => cases hx
  next hroom =>
    obtain ⟨hctx, hchanges⟩ := changes_of_mem_instants hx
    have hsize : m.resume.stack.size = m.stack.size + m.inst.segment.size := Array.size_append
    rw [hctx]
    exact ⟨rfl,
      hchanges.keep (P := fun m' => m.stack.size ≤ m'.stack.size) (fun _ _ h => h.base_le)
        (by omega),
      hchanges.keep (P := fun m' => m'.stack.size ≤ config.stackCapacity)
        (fun _ _ h => h.stack_size) (by omega)⟩

omit [Host ω] in
theorem endDivision_cases (m : Machine ω) :
    m.endDivision.inst.status = .pleaseRemove ∨ m.endDivision = m := by
  unfold endDivision
  split
  · exact .inl rfl
  · exact .inl rfl
  · exact .inr rfl

omit [Host ω] in
/-- An instance that goes on keeps what is its own on the stack. -/
theorem place_spill (ctx : Context) (h : m.inst.status ≠ .pleaseRemove) :
    (m.spill ctx.base).inst.place = m.place ctx := by
  unfold spill
  rw [if_neg h]
  rfl

/-- A turn leaves the instance where its last instant did, unless it ends it. -/
theorem run_place (program : Program) (config : Config) (m : Machine ω) :
    (m.run program config).2.inst.status = .pleaseRemove ∨
    (m.run program config).2.inst.place =
      (m.runInstants program config).getLast?.elim m.inst.place Instant.after ∧
    ∀ x ∈ (m.runInstants program config).getLast?, x.next.inst.status ≠ .pleaseRemove := by
  unfold run
  dsimp only
  split
  · exact .inl rfl
  · rename_i hroom
    have hctx : ∀ x ∈ (m.runInstants program config).getLast?,
        x.ctx = ⟨program, config, m.stack.size⟩ :=
      fun x hx => (of_mem_runInstants (List.mem_of_getLast? hx)).1
    have hlast :=
      loop_instants ⟨program, config, m.stack.size⟩ config.instructionLimit.toNat m.resume
    rw [show m.resume.instants _ _ = m.runInstants program config from (if_neg hroom).symm] at hlast
    generalize (m.resume.loop ⟨program, config, m.stack.size⟩ config.instructionLimit.toNat).2 = m'
      at hlast ⊢
    rcases m'.endDivision_cases with hend | hsame
    · exact .inl hend
    · rw [hsame]
      by_cases hend : m'.inst.status = .pleaseRemove
      · exact .inl hend
      · refine .inr ?_
        have hplace := place_spill ⟨program, config, m.stack.size⟩ hend
        rw [hplace]
        obtain hm' := hlast.resolve_left hend
        cases hx : (m.runInstants program config).getLast? with
        | none =>
          rw [hx] at hm'
          exact ⟨hm' ▸ place_resume program config m, by simp⟩
        | some x =>
          rw [hx] at hm'
          change m' = x.next at hm'
          refine ⟨?_, fun y hy => ?_⟩
          · rw [hm', ← hctx x hx]
            rfl
          · cases hy
            rwa [← hm']

end Machine

/-! ## Turns of an instance -/

namespace Simulation

variable {ω : Type} [Host ω] {s : Simulation ω} {h : Handle} {i j : Instance} {a : Act}
  {x : Instant ω}

/-- The instants of an instance's turn. -/
def turnInstants (s : Simulation ω) (i : Instance) : List (Instant ω) :=
  let (status, s) := s.nextStatus i.status
  let i := { i with lastTick := s.level.tick, status := status }
  if status = .running then (s.machine i).runInstants s.level.program s.level.config else []

/-- The instants of an instance during an act. -/
def instants (s : Simulation ω) (h : Handle) : Act → List (Instant ω)
  | .turn k => if k = h then (s.level.instance? h).elim [] s.turnInstants else []
  | _ => []

theorem instants_turn (hi : s.level.instance? h = some i) :
    s.instants h (.turn h) = s.turnInstants i := by
  rw [instants, if_pos rfl, hi]
  rfl

theorem instants_of_ne (ha : a ≠ .turn h) : s.instants h a = [] := by
  cases a with
  | turn k => exact if_neg fun hk => ha (congrArg Act.turn hk)
  | _ => rfl

theorem exists_of_mem_instants (hx : x ∈ s.instants h a) :
    ∃ i, s.level.instance? h = some i ∧ s.instants h a = s.turnInstants i := by
  by_cases ha : a = .turn h
  · subst ha
    cases hi : s.level.instance? h with
    | none =>
      rw [instants, if_pos rfl, hi] at hx
      cases hx
    | some i => exact ⟨i, rfl, instants_turn hi⟩
  · rw [instants_of_ne ha] at hx
    cases hx

theorem turnInstants_of_terminal (hend : i.status.isTerminal = true) : s.turnInstants i = [] := by
  have hrun : (s.nextStatus i.status).1 ≠ .running :=
    mt (s.nextStatus_eq_running_iff i.status).mp (s.not_ready_of_terminal hend)
  exact if_neg hrun

theorem instants_of_terminal (hi : s.level.instance? h = some i)
    (hend : i.status.isTerminal = true) : s.instants h a = [] := by
  refine List.eq_nil_iff_forall_not_mem.mpr fun x hx => ?_
  obtain ⟨i', hi', hinstants⟩ := exists_of_mem_instants hx
  obtain rfl : i = i' := Option.some.inj (hi.symm.trans hi')
  rw [hinstants, turnInstants_of_terminal hend] at hx
  cases hx

theorem chain_turnInstants (s : Simulation ω) (i : Instance) :
    (s.turnInstants i).IsChain Instant.Precedes := by
  unfold turnInstants
  dsimp only
  split
  · exact Machine.chain_runInstants _ _ _
  · exact .nil

theorem head?_turnInstants (hx : x ∈ (s.turnInstants i).head?) : x.here = i.place := by
  unfold turnInstants at hx
  dsimp only at hx
  split at hx
  next => exact Machine.head?_runInstants hx
  next => cases hx

theorem within_of_mem_turnInstants (hx : x ∈ s.turnInstants i) : x.Within s.level := by
  unfold turnInstants at hx
  dsimp only at hx
  rw [level_nextStatus] at hx
  split at hx
  next =>
    obtain ⟨hctx, hbase, hsize⟩ := Machine.of_mem_runInstants hx
    exact ⟨by rw [hctx], by rw [hctx], hbase, hsize⟩
  next => cases hx

/-- A turn leaves the instance where its last instant did, unless it ends it. -/
theorem place_advance (s : Simulation ω) (i : Instance) :
    (s.advance i).1.status.isTerminal = true ∨
    (s.advance i).1.place = (s.turnInstants i).getLast?.elim i.place Instant.after ∧
    ∀ x ∈ (s.turnInstants i).getLast?, x.next.inst.status ≠ .pleaseRemove := by
  unfold advance turnInstants
  dsimp only
  split
  · rw [dispatch_eq]
    rcases Machine.run_place (s.nextStatus i.status).2.level.program
      (s.nextStatus i.status).2.level.config ((s.nextStatus i.status).2.machine
        { i with lastTick := (s.nextStatus i.status).2.level.tick
                 status := (s.nextStatus i.status).1 }) with hend | hplace
    · left
      dsimp only
      rw [hend]
      rfl
    · exact .inr hplace
  · exact .inr ⟨rfl, by simp⟩

/-- Acts leave an instance where its last instant in them did. -/
theorem place_act (hl : s.level.Sound) (hi : s.level.instance? h = some i)
    (hj : (s.act a).level.instance? h = some j) :
    j.status.isTerminal = true ∨
    j.place = (s.instants h a).getLast?.elim i.place Instant.after ∧
    ∀ x ∈ (s.instants h a).getLast?, x.next.inst.status ≠ .pleaseRemove := by
  by_cases ha : a = .turn h
  · subst ha
    change (s.turn h).level.instance? h = some j at hj
    rw [instance?_turn hl hi, if_pos rfl] at hj
    obtain rfl := Option.some.inj hj
    rw [instants_turn hi]
    exact place_advance s i
  · rw [instants_of_ne ha]
    rcases accounts_act hl a h j hj ha with ⟨i', hi', hside⟩ | ⟨hnone, -⟩
    · obtain rfl : i = i' := Option.some.inj (hi.symm.trans hi')
      refine .inr ⟨?_, by simp⟩
      rw [hside.eq]
      rfl
    · rw [hi] at hnone
      cases hnone

end Simulation

/-! ## Runs -/

theorem Instant.Within.of_stays {ω : Type} {l l' : Level} {x : Instant ω} (h : x.Within l')
    (hstays : Simulation.Stays l l') : x.Within l where
  program := h.program.trans hstays.program
  config := h.config.trans hstays.config
  base_le := h.base_le
  size_le := hstays.config ▸ h.size_le

section Runs

variable {ω : Type} [Host ω]

/-- The instants of an instance over a run, until it is gone. -/
def trail (h : Handle) : List (Simulation ω × Act) → List (Instant ω)
  | [] => []
  | (s, a) :: rest =>
    s.instants h a ++ if ((s.act a).level.instance? h).isSome then trail h rest else []

namespace Course

variable {l l' : Level} {xs : List (Simulation ω × Act)} {h : Handle} {i : Instance}

theorem stays (hc : Course l xs l') : Simulation.Stays l l' := by
  induction hc with
  | nil => exact .refl _
  | cons here _ ih =>
    subst here
    exact (Simulation.stays_act _ _).trans ih

theorem trail_of_terminal (hc : Course l xs l') (hl : l.Sound) (hi : l.instance? h = some i)
    (hend : i.status.isTerminal = true) : trail h xs = [] := by
  induction hc generalizing i with
  | nil => rfl
  | @cons s a xs l l' here rest ih =>
    subst here
    rw [trail, Simulation.instants_of_terminal hi hend, List.nil_append]
    split
    · rename_i hthere
      obtain ⟨j, hj⟩ := Option.isSome_iff_exists.mp hthere
      have hstatus := Simulation.status_of_terminal hl hi hend hj
      exact ih (Simulation.sound_act hl a) hj (by rw [hstatus, hend])
    · rfl

/-- The first instant finds the instance where it was at the start. -/
theorem head?_trail (hc : Course l xs l') (hl : l.Sound) (hi : l.instance? h = some i)
    {x : Instant ω} (hx : x ∈ (trail h xs).head?) : x.here = i.place := by
  induction hc generalizing i with
  | nil => cases hx
  | @cons s a xs l l' here rest ih =>
    subst here
    rw [trail] at hx
    cases hinstants : s.instants h a with
    | cons y ys =>
      rw [hinstants] at hx
      cases hx
      obtain ⟨i', hi', hturn⟩ := Simulation.exists_of_mem_instants
        (hinstants ▸ List.mem_cons_self : x ∈ s.instants h a)
      obtain rfl : i = i' := Option.some.inj (hi.symm.trans hi')
      exact Simulation.head?_turnInstants (by rw [← hturn, hinstants]; rfl)
    | nil =>
      rw [hinstants, List.nil_append] at hx
      split at hx
      next hthere =>
        obtain ⟨j, hj⟩ := Option.isSome_iff_exists.mp hthere
        have hsound := Simulation.sound_act hl a
        rcases Simulation.place_act hl hi hj with hend | ⟨hplace, -⟩
        · rw [rest.trail_of_terminal hsound hj hend] at hx
          cases hx
        · rw [hinstants] at hplace
          exact (ih hsound hj hx).trans hplace
      next => cases hx

/-- **Trails have no gaps.** Each instant finds the instance where the one before left it. -/
theorem chain_trail (hc : Course l xs l') (hl : l.Sound) (h : Handle) :
    (trail h xs).IsChain Instant.Precedes := by
  induction hc with
  | nil => exact .nil
  | @cons s a xs l l' here rest ih =>
    subst here
    have hsound := Simulation.sound_act hl a
    rw [trail]
    refine List.isChain_append.mpr ⟨?_, ?_, fun x hx y hy => ?_⟩
    · cases hinstants : s.instants h a with
      | nil => exact .nil
      | cons x xs =>
        obtain ⟨i, -, hturn⟩ := Simulation.exists_of_mem_instants
          (hinstants ▸ List.mem_cons_self : x ∈ s.instants h a)
        rw [← hinstants, hturn]
        exact Simulation.chain_turnInstants s i
    · split
      · exact ih hsound
      · exact .nil
    · obtain ⟨i, hi, -⟩ := Simulation.exists_of_mem_instants (List.mem_of_getLast? hx)
      split at hy
      next hthere =>
        obtain ⟨j, hj⟩ := Option.isSome_iff_exists.mp hthere
        rcases Simulation.place_act hl hi hj with hend | ⟨hplace, halive⟩
        · rw [rest.trail_of_terminal hsound hj hend] at hy
          cases hy
        · refine ⟨halive x hx, (rest.head?_trail hsound hj hy).trans ?_⟩
          rw [hplace, hx]
          rfl
      next => cases hy

theorem within_of_mem_trail (hc : Course l xs l') {x : Instant ω} (hx : x ∈ trail h xs) :
    x.Within l := by
  induction hc with
  | nil => cases hx
  | @cons s a xs l l' here rest ih =>
    subst here
    rw [trail] at hx
    rcases List.mem_append.mp hx with hnow | hlater
    · obtain ⟨i, -, hturn⟩ := Simulation.exists_of_mem_instants hnow
      exact Simulation.within_of_mem_turnInstants (hturn ▸ hnow)
    · split at hlater
      next => exact (ih hlater).of_stays (Simulation.stays_act s a)
      next => cases hlater

end Course

end Runs

end LevelScript
