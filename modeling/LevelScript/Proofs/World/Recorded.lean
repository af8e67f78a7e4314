import LevelScript.Proofs.Level.Replay

/-!
# Hosts that keep a record

A host with a record of what it was asked answers as the host alone does. Two levels that ask the
same of their hosts are two levels whose hosts have the same record in the end.
-/

namespace LevelScript

/-- A host, and the calls made to it so far. -/
structure Recorded (ω : Type) where
  world : ω
  calls : List Call

namespace Recorded

variable {ω ω₁ ω₂ : Type}

instance [Host ω] : Host (Recorded ω) where
  answer c r := ((Host.answer c r.world).1, ⟨(Host.answer c r.world).2, r.calls ++ [c]⟩)
  remarks := Host.remarks ω

/-- Hosts in related states, with the same record. -/
def Both (W : ω₁ → ω₂ → Prop) (r₁ : Recorded ω₁) (r₂ : Recorded ω₂) : Prop :=
  W r₁.world r₂.world ∧ r₂.calls = r₁.calls

theorem alike_both [Host ω₁] [Host ω₂] {W : ω₁ → ω₂ → Prop} (h : Host.Alike W) :
    Host.Alike (Both W) := by
  intro c r₁ r₂ hr
  obtain ⟨hreply, hworld⟩ := h c r₁.world r₂.world hr.1
  exact ⟨hreply, hworld, congrArg (· ++ [c]) hr.2⟩

end Recorded

/-! ## The same program on both sides -/

/-- Two simulations of the same program. -/
def Link.same {ω₁ ω₂ : Type} (W : ω₁ → ω₂ → Prop) (program : Program) (config : Config)
    (sameHandles : Prop) : Link ω₁ ω₂ where
  pcs := Eq
  inside := fun _ => True
  worlds := W
  left := program
  right := program
  config := config
  sameHandles := sameHandles

theorem Link.fair_same {ω₁ ω₂ : Type} [Host ω₁] [Host ω₂] {W : ω₁ → ω₂ → Prop}
    (hW : Host.Alike W) (program : Program) (config : Config) (sameHandles : Prop) :
    (Link.same W program config sameHandles).Fair where
  hosts := hW
  texts _ := rfl
  functions := Coupling.function_alike_self program
  scripts n := by
    show Option.Rel _ (program.findScript n) (program.findScript n)
    cases program.findScript n with
    | none => exact .none
    | some s => exact .some ⟨rfl, rfl⟩
  kinds _ := rfl
  instructions origin p q hpq _ := by
    obtain rfl : p = q := hpq
    exact Coupling.sameInstruction_of_program rfl rfl (fun _ => trivial) p

namespace Simulation

variable {ω : Type} [Host ω]

theorem within_true (s : Simulation ω) (acts : List Act) : s.Within (fun _ => True) acts := by
  induction acts generalizing s with
  | nil => trivial
  | cons a rest ih =>
    refine ⟨?_, ih _⟩
    cases a with
    | turn h => exact fun _ _ _ _ => Machine.within_true _ _ _
    | _ => trivial

theorem playWithin_true (s : Simulation ω) (ops : List Operation) :
    s.PlayWithin (fun _ => True) ops := by
  induction ops generalizing s with
  | nil => trivial
  | cons op ops ih => exact ⟨within_true s _, ih _⟩

/-- Sides that are alike have instances that are alike, in the same order. -/
theorem Beside.instances_alike {ω₁ ω₂ : Type} {k : Link ω₁ ω₂} {ps : List Level.Pair}
    {s₁ : Simulation ω₁} {s₂ : Simulation ω₂} (h : s₁.Beside k ps s₂) :
    List.Forall₂ (Instance.Alike k.pcs) s₁.level.instances s₂.level.instances := by
  unfold Level.instances Roster.instances
  rw [h.matched.left, h.matched.right, List.map_map, List.map_map, List.forall₂_map_left_iff,
    List.forall₂_map_right_iff, List.forall₂_same]
  exact h.matched.alike

/-- Sides with the same program have the same instances. -/
theorem Beside.instances_eq {ω₁ ω₂ : Type} {k : Link ω₁ ω₂} (hpcs : k.pcs = Eq)
    {ps : List Level.Pair} {s₁ : Simulation ω₁} {s₂ : Simulation ω₂} (h : s₁.Beside k ps s₂) :
    s₂.level.instances = s₁.level.instances := by
  have halike := h.instances_alike
  rw [hpcs] at halike
  rw [← List.forall₂_eq_eq_eq]
  exact halike.flip.imp fun j i hij => (Coupling.instance_alike_eq_iff.mp hij).symm

end Simulation

end LevelScript
