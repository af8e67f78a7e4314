import LevelScript.Proofs.Level.Trails

/-!
# Segments of the shared stack

An instance has the upper part of the shared stack while it runs. Where that part starts does not
matter: the slots below are neither read nor written, and only how many are free above counts.

* `Machine.Guards`: the slots below are as they were, and the stack fits.
* `Instant.Guarded`: that is so before and after each small change of an instruction.
* `Machine.segment_relocatable`: a turn guards the slots below, and does not depend on them.
-/

namespace LevelScript

/-- The fault without the places on the shared stack that it names. -/
def Fault.blurred : Fault → Fault
  | .stackOverflow _ => .stackOverflow 0
  | .badFrame _ => .badFrame 0
  | f => f

namespace Machine

variable {ω : Type} {ctx : Context} {m m' : Machine ω} {lower : Array Slot} {capacity : Nat}

/-- The stack starts with the slots of others, and fits. -/
structure Guards (lower : Array Slot) (capacity : Nat) (m : Machine ω) : Prop where
  below : lower.toList <+: m.stack.toList
  /-- The depth of the instance's own part is not negative. -/
  depth : lower.size ≤ m.stack.size
  fits : m.stack.size ≤ capacity

/-- Two turns do the same above different slots. Only the places on the stack that faults name
differ. -/
structure Relocated (lower : Array Slot) (r r' : Nat × Machine ω) : Prop where
  executed : r'.1 = r.1
  machine : r'.2 = { r.2 with stack := lower, journal := r'.2.journal }
  journal : r'.2.journal.mapFault Fault.blurred = r.2.journal.mapFault Fault.blurred

variable [Host ω]

/-- Each small change is above the slots of others. -/
theorem Change.below {moves yields : Bool} (h : Change ctx moves yields m m')
    (hbase : ctx.base = lower.size) (hm : lower.toList <+: m.stack.toList) :
    lower.toList <+: m'.stack.toList := by
  obtain ⟨own, hown⟩ := hm
  have hlength : m.stack.size = lower.size + own.length := by
    rw [← Array.length_toList, ← hown, List.length_append, Array.length_toList]
  cases h with
  | push s room => exact ⟨own ++ [s], by rw [Array.toList_push, ← hown, List.append_assoc]⟩
  | pop some =>
    have hne : own ≠ [] := List.ne_nil_of_length_pos (by omega)
    exact ⟨own.dropLast, by rw [Array.toList_pop, ← hown, List.dropLast_append_of_ne_nil hne]⟩
  | overwrite slot v above =>
    have habove : lower.toList.length ≤ slot := by
      rw [Array.length_toList]
      omega
    exact ⟨own.set (slot - lower.toList.length) (.value v), by
      rw [Array.toList_setIfInBounds, ← hown, List.set_append_right _ _ habove]⟩
  | truncate depth =>
    refine ⟨own.take depth, ?_⟩
    rw [Array.toList_shrink, ← hown, hbase, ← Array.length_toList, List.take_length_add_append]
  | _ => exact ⟨own, hown⟩

theorem Change.guards {moves yields : Bool} (h : Change ctx moves yields m m')
    (hbase : ctx.base = lower.size) (hm : m.Guards lower ctx.config.stackCapacity) :
    m'.Guards lower ctx.config.stackCapacity :=
  ⟨h.below hbase hm.below, hbase ▸ h.base_le (hbase ▸ hm.depth), h.stack_size hm.fits⟩

end Machine

/-- The stack is guarded before the instruction, and after each small change that it makes. -/
def Instant.Guarded {ω : Type} [Host ω] (lower : Array Slot) (x : Instant ω) : Prop :=
  x.machine.Guards lower x.ctx.config.stackCapacity ∧
    Relation.ReflTransGen (fun m m' => Machine.Change x.ctx true true m m' ∧
      m'.Guards lower x.ctx.config.stackCapacity) x.machine x.next

namespace Machine

variable {ω : Type} [Host ω] {ctx : Context} {m m' : Machine ω} {lower : Array Slot}

/-- Small changes, each of them above the slots of others. -/
theorem Changes.guarded (h : Changes ctx true true m m') (hbase : ctx.base = lower.size)
    (hm : m.Guards lower ctx.config.stackCapacity) :
    Relation.ReflTransGen (fun m m' => Change ctx true true m m' ∧
      m'.Guards lower ctx.config.stackCapacity) m m' := by
  induction h with
  | refl => exact .refl
  | tail hfirst hlast ih =>
    have hguards := Changes.keep (P := Guards lower ctx.config.stackCapacity)
      (fun _ _ hc => hc.guards hbase) hfirst hm
    exact ih.tail ⟨hlast, hlast.guards hbase hguards⟩

/-- A turn leaves the slots of others alone all the time. -/
theorem guarded_of_mem_runInstants {program : Program} {config : Config} {x : Instant ω}
    (hx : x ∈ m.runInstants program config) : x.Guarded m.stack := by
  unfold runInstants at hx
  split at hx
  next => cases hx
  next hroom =>
    obtain ⟨hctx, hchanges⟩ := changes_of_mem_instants hx
    have hbase : x.ctx.base = m.stack.size := by rw [hctx]
    have hsize : m.resume.stack.size = m.stack.size + m.inst.segment.size := Array.size_append
    have hresume : m.resume.Guards m.stack config.stackCapacity :=
      ⟨⟨m.inst.segment.toList, Array.toList_append.symm⟩, by omega, by omega⟩
    have hguards : x.machine.Guards m.stack x.ctx.config.stackCapacity := by
      rw [hctx]
      exact hchanges.keep (P := Guards m.stack config.stackCapacity) (fun _ _ hc => hc.guards rfl)
        hresume
    exact ⟨hguards, (changes_step x.ctx x.machine).guarded hbase hguards⟩

/-- **Segments are relocatable, and the shared stack is protected.** During a turn the slots of
others stay at the bottom of the stack and the stack fits, after each small change; in the end they
are all that is left. Above other slots, with as many free ones, the turn does the same and asks the
same of its host. -/
theorem segment_relocatable (program : Program) (config : Config) (m : Machine (Recorded ω))
    (lower : Array Slot) (capacity : Nat) (hfits : m.stack.size ≤ config.stackCapacity)
    (hlower : lower.size ≤ capacity)
    (hfree : config.stackCapacity - m.stack.size = capacity - lower.size) :
    (m.run program config).2.stack = m.stack ∧
      (∀ x ∈ m.runInstants program config, x.Guarded m.stack) ∧
      Relocated lower (m.run program config)
        (run program { config with stackCapacity := capacity } { m with stack := lower }) := by
  have hfair : (Coupling.shifted (ω := Recorded ω) Fault.blurred program config
      { config with stackCapacity := capacity } m.stack lower False m.inst).Fair :=
    Coupling.fair_shifted rfl (by dsimp only; omega) (fun _ => ⟨by dsimp only; omega, rfl, rfl⟩)
      fun _ => rfl
  obtain ⟨hcount, hstack, hstack', halike⟩ :=
    Coupling.run_shifted hfair (UInt32.le_refl _) fun _ => ⟨id, rfl⟩
  have hmachine := halike.eq_of_shifted
  rw [hstack'] at hmachine
  exact ⟨hstack, fun x hx => guarded_of_mem_runInstants hx,
    ⟨hcount.symm, hmachine, halike.journal.symm⟩⟩

end Machine

namespace Moved

/-- Two numbers are pushed. -/
def program : Program :=
  { (default : Program) with image := #[167, 5, 167, 6, 1], layout := .enhanced .compact }

/-- An instance with one slot of its own, above two of others. -/
def machine : Machine (Recorded StillWorld) where
  inst := { (default : Instance) with segment := #[.value 3] }
  stack := #[.value 1, .value 2]
  memory := default
  session := .empty
  world := ⟨default, []⟩
  requests := #[]
  journal := .empty (some .error)

/-- There is room for one number. -/
def config : Config := { Config.standard with stackCapacity := 4 }

/-- The instance on an empty stack. -/
def moved : Machine (Recorded StillWorld) := { machine with stack := #[] }

def small : Config := { config with stackCapacity := 2 }

theorem faults :
    (machine.run program config).2.journal.entries = #[.aborted 0 2 (.stackOverflow 4)] ∧
    (moved.run program small).2.journal.entries = #[.aborted 0 2 (.stackOverflow 2)] := by
  decide +kernel

/-- With as many free slots on an empty stack, the instance faults at the same instruction and
tells of the other capacity. -/
theorem segment_relocatable_moved :
    ((machine.run program config).2.stack = machine.stack ∧
      (∀ x ∈ machine.runInstants program config, x.Guarded machine.stack) ∧
      Machine.Relocated #[] (machine.run program config) (moved.run program small)) ∧
    (machine.run program config).2.journal.entries = #[.aborted 0 2 (.stackOverflow 4)] ∧
    (moved.run program small).2.journal.entries = #[.aborted 0 2 (.stackOverflow 2)] := by
  have hfits : machine.stack.size ≤ config.stackCapacity := by decide
  have hlower : (#[] : Array Slot).size ≤ 2 := by decide
  have hfree : config.stackCapacity - machine.stack.size = 2 - (#[] : Array Slot).size := by decide
  exact ⟨Machine.segment_relocatable program config machine #[] 2 hfits hlower hfree, faults⟩

end Moved

end LevelScript
