import LevelScript.Proofs.Machine.Lockstep

/-!
# Turns in tandem

Whole turns of an instance on two machines: as long as the left machine only fetches at offsets
where both programs have the same instruction, the machines stay alike. The right machine may have
higher limits, if the left one does not meet its own.

* `Machine.RunWithin`: a turn fetches only at offsets of a kind.
* `Machine.HitsLimit`: a turn finds no room on the stack, or executes too many instructions.
* `alike_run`: a turn keeps machines alike.
* `Coupling.shifted`: the same program above other slots and under other limits.
* `continues_run`: what a turn leaves as it was.
-/

namespace LevelScript

/-- Whether a computation ended since there was no room on the stack. -/
def Exec.overflowed {ω α : Type} : EStateM.Result Fault (Machine ω) α → Bool
  | .error (.stackOverflow _) _ => true
  | _ => false

theorem Exec.Same.overflowed_eq {ω α : Type} {r r' : EStateM.Result Fault (Machine ω) α}
    (h : Exec.Same r r') : Exec.overflowed r = Exec.overflowed r' := by
  cases h with
  | ok a m => rfl
  | error f m p q => cases f <;> rfl

namespace Machine

variable {ω : Type} [Host ω]

/-! ## What a turn meets -/

/-- The next steps, at most `fuel` of them, fetch only at offsets inside. -/
def Within (inside : UInt32 → Prop) (ctx : Context) : Nat → Machine ω → Prop
  | 0, _ => True
  | fuel + 1, m => m.inst.status = .running →
    inside m.inst.pc ∧ Within inside ctx fuel (m.step ctx)

instance decidableWithin (inside : UInt32 → Prop) [DecidablePred inside] (ctx : Context) :
    (fuel : Nat) → (m : Machine ω) → Decidable (m.Within inside ctx fuel)
  | 0, _ => .isTrue trivial
  | fuel + 1, m =>
    have := decidableWithin inside ctx fuel (m.step ctx)
    inferInstanceAs (Decidable (_ → _ ∧ _))

/-- A turn fetches only at offsets inside. -/
def RunWithin (inside : UInt32 → Prop) (program : Program) (config : Config) (m : Machine ω) :
    Prop :=
  m.stack.size + m.inst.segment.size ≤ config.stackCapacity →
    Within inside ⟨program, config, m.stack.size⟩ config.instructionLimit.toNat m.resume

instance (inside : UInt32 → Prop) [DecidablePred inside] (program : Program) (config : Config)
    (m : Machine ω) : Decidable (m.RunWithin inside program config) :=
  inferInstanceAs (Decidable (_ → _))

theorem within_true (ctx : Context) (fuel : Nat) (m : Machine ω) :
    m.Within (fun _ => True) ctx fuel := by
  induction fuel generalizing m with
  | zero => trivial
  | succ fuel ih => exact fun _ => ⟨trivial, ih _⟩

/-- One of the next steps, at most `fuel` of them, finds no room on the stack. -/
def Overflows (ctx : Context) : Nat → Machine ω → Prop
  | 0, _ => False
  | fuel + 1, m => m.inst.status = .running ∧
    (Exec.overflowed (Exec.step ctx m) = true ∨ Overflows ctx fuel (m.step ctx))

instance decidableOverflows (ctx : Context) :
    (fuel : Nat) → (m : Machine ω) → Decidable (m.Overflows ctx fuel)
  | 0, _ => .isFalse id
  | fuel + 1, m =>
    have := decidableOverflows ctx fuel (m.step ctx)
    inferInstanceAs (Decidable (_ ∧ (_ ∨ _)))

/-- The instance still runs after `fuel` steps. -/
def RunsAway (ctx : Context) : Nat → Machine ω → Prop
  | 0, m => m.inst.status = .running
  | fuel + 1, m => m.inst.status = .running ∧ RunsAway ctx fuel (m.step ctx)

instance decidableRunsAway (ctx : Context) :
    (fuel : Nat) → (m : Machine ω) → Decidable (m.RunsAway ctx fuel)
  | 0, m => inferInstanceAs (Decidable (m.inst.status = .running))
  | fuel + 1, m =>
    have := decidableRunsAway ctx fuel (m.step ctx)
    inferInstanceAs (Decidable (_ ∧ _))

/-- A turn meets a limit: the stack has no room for the instance's part of it or for what an
instruction pushes, or the instance runs until it has executed all instructions it may. -/
def HitsLimit (program : Program) (config : Config) (m : Machine ω) : Prop :=
  config.stackCapacity < m.stack.size + m.inst.segment.size ∨
    m.resume.Overflows ⟨program, config, m.stack.size⟩ config.instructionLimit.toNat ∨
    m.resume.RunsAway ⟨program, config, m.stack.size⟩ config.instructionLimit.toNat

instance (program : Program) (config : Config) (m : Machine ω) :
    Decidable (m.HitsLimit program config) :=
  inferInstanceAs (Decidable (_ ∨ _ ∨ _))

theorem loop_of_stopped {ctx : Context} {m : Machine ω} (h : m.inst.status ≠ .running)
    (fuel : Nat) : m.loop ctx fuel = (fuel, m) := by
  cases fuel with
  | zero => rw [loop, if_neg h]
  | succ fuel => rw [loop, if_neg h]

end Machine

namespace Coupling

variable {ω₁ ω₂ : Type} {c : Coupling ω₁ ω₂} {m₁ : Machine ω₁} {m₂ : Machine ω₂}

theorem Alike.status_eq (hm : c.Alike m₁ m₂) : m₂.inst.status = m₁.inst.status :=
  hm.inst.keeps Instance.status fun _ _ _ _ => rfl

theorem Alike.number_eq (hm : c.Alike m₁ m₂) : m₂.inst.number = m₁.inst.number :=
  hm.inst.keeps Instance.number fun _ _ _ _ => rfl

/-- The segment is moved out of the instance. -/
theorem Alike.withSegment (hm : c.Alike m₁ m₂) {s t : Array Slot}
    (h : List.Forall₂ (Slot.Alike c.pcs) s.toList t.toList) :
    c.Alike { m₁ with inst := { m₁.inst with segment := s } }
      { m₂ with inst := { m₂.inst with segment := t } } :=
  { hm with
    inst := ⟨congrArg (fun i : Instance => { i with segment := t }) hm.inst.same, hm.inst.pc,
      hm.inst.entry, h⟩
    origin := hm.origin.trans rfl }

theorem Alike.resume (hm : c.Alike m₁ m₂) (hl : m₁.stack.toList = c.leftBelow)
    (hr : m₂.stack.toList = c.rightBelow) : c.Alike m₁.resume m₂.resume :=
  (hm.withSegment (s := #[]) (t := #[]) .nil).withStack _ _
    (by rw [Array.toList_append, hl]) (by rw [Array.toList_append, hr]) hm.inst.segment

section

variable [Host ω₁] [Host ω₂]

theorem Alike.fail (hc : c.Fair) (hm : c.Alike m₁ m₂) {d e : Diagnostic} (h : c.SameNote d e) :
    c.Alike (m₁.fail d) (m₂.fail e) :=
  let hended := hm.mild (f := ({ · with status := .pleaseRemove }))
    ⟨fun _ _ _ _ => rfl, fun _ => rfl⟩ fun _ _ h => by simp at h
  { hended with journal := hc.notes d e _ _ h hm.journal }

theorem Alike.endDivision (hc : c.Fair) (hm : c.Alike m₁ m₂) :
    c.Alike m₁.endDivision m₂.endDivision := by
  unfold Machine.endDivision
  rw [hm.status_eq, hm.number_eq]
  cases m₁.inst.status with
  | divideByZero => exact hm.fail hc (.divisionByZero _)
  | modulusByZero => exact hm.fail hc (.modulusByZero _)
  | _ => exact hm

/-- After the turn only the slots of others are left on the stack. -/
theorem Alike.spill (hc : c.Fair) (hm : c.Alike m₁ m₂) :
    c.Alike (m₁.spill c.left.base) (m₂.spill c.right.base) ∧
      (m₁.spill c.left.base).stack.toList = c.leftBelow ∧
      (m₂.spill c.right.base).stack.toList = c.rightBelow := by
  obtain ⟨xs, ys, ho⟩ := hm.own hc
  have hl : (m₁.stack.shrink c.left.base).toList = c.leftBelow := by
    rw [Array.toList_shrink, ho.left, hc.leftBase, List.take_left]
  have hr : (m₂.stack.shrink c.right.base).toList = c.rightBelow := by
    rw [Array.toList_shrink, ho.right, hc.rightBase, List.take_left]
  have hx : (m₁.stack.extract c.left.base m₁.stack.size).toList = xs := by
    rw [Array.toList_extract, ho.left, hc.leftBase, ho.leftSize, hc.leftBase]
    simp [List.extract_eq_take_drop]
  have hy : (m₂.stack.extract c.right.base m₂.stack.size).toList = ys := by
    rw [Array.toList_extract, ho.right, hc.rightBase, ho.rightSize, hc.rightBase,
      ho.alike.length_eq]
    simp [List.extract_eq_take_drop]
  have hsegment : List.Forall₂ (Slot.Alike c.pcs)
      (if m₁.inst.status = .pleaseRemove then #[]
        else m₁.stack.extract c.left.base m₁.stack.size).toList
      (if m₂.inst.status = .pleaseRemove then #[]
        else m₂.stack.extract c.right.base m₂.stack.size).toList := by
    rw [hm.status_eq]
    split
    · exact .nil
    · rw [hx, hy]
      exact ho.alike
  exact ⟨(hm.withSegment hsegment).withStack [] [] (hl.trans (List.append_nil _).symm)
    (hr.trans (List.append_nil _).symm) .nil, hl, hr⟩

/-- A step, unless only the left machine has no room for it. -/
theorem alike_step (hc : c.Fair) (hm : c.Alike m₁ m₂)
    (h : c.SameInstruction m₁.inst.pc m₂.inst.pc)
    (hroom : c.slack → Exec.overflowed (Exec.step c.left m₁) ≠ true) :
    c.Alike (m₁.step c.left) (m₂.step c.right) := by
  have hagree := agree_step hc hm h
  rw [(Exec.same_step c.left m₁).overflowed_eq] at hroom
  rw [Machine.step_eq, Machine.step_eq, hm.number_eq]
  generalize Exec.stepWhole c.left m₁ = r₁ at hagree hroom ⊢
  generalize Exec.stepWhole c.right m₂ = r₂ at hagree ⊢
  cases hagree with
  | ok _ alike => exact alike
  | error fault alike => exact (alike.moved hm.inst.pc).fail hc (.aborted _ hm.inst.pc fault)
  | overflow slack => exact absurd rfl (hroom slack)

/-- Steps one after the other. The right machine may be allowed more of them, if the left one does
not need all of its own. -/
theorem alike_loop (hc : c.Fair) {inside : UInt32 → Prop}
    (hsame : ∀ p q, c.pcs p q → inside p → c.SameInstruction p q) {fuel fuel' : Nat}
    (hfuel : fuel ≤ fuel') (hm : c.Alike m₁ m₂) (hw : m₁.Within inside c.left fuel)
    (hroom : c.slack → ¬ m₁.Overflows c.left fuel)
    (hcut : m₁.RunsAway c.left fuel → ¬ c.slack ∧ fuel = fuel') :
    (m₁.loop c.left fuel).1 + fuel' = (m₂.loop c.right fuel').1 + fuel ∧
      c.Alike (m₁.loop c.left fuel).2 (m₂.loop c.right fuel').2 := by
  induction fuel generalizing m₁ m₂ fuel' with
  | zero =>
    by_cases hrunning : m₁.inst.status = .running
    · obtain ⟨htight, rfl⟩ := hcut hrunning
      unfold Machine.loop
      rw [hm.status_eq, if_pos hrunning, if_pos hrunning, hm.number_eq]
      exact ⟨rfl, hm.fail hc (.runaway _ htight)⟩
    · rw [Machine.loop_of_stopped hrunning, Machine.loop_of_stopped (hm.status_eq ▸ hrunning)]
      exact ⟨Nat.add_comm _ _, hm⟩
  | succ fuel ih =>
    obtain ⟨k, rfl⟩ : ∃ k, fuel' = k + 1 := ⟨fuel' - 1, by omega⟩
    unfold Machine.loop
    rw [hm.status_eq]
    split
    · rename_i hrunning
      obtain ⟨hin, hrest⟩ := hw hrunning
      have hstep := alike_step hc hm (hsame _ _ hm.inst.pc hin)
        fun hs ho => hroom hs ⟨hrunning, .inl ho⟩
      have hfuel' : fuel ≤ k := Nat.le_of_succ_le_succ hfuel
      obtain ⟨hleft, hloop⟩ := ih hfuel' hstep hrest
        (fun hs ho => hroom hs ⟨hrunning, .inr ho⟩)
        (fun ha => (hcut ⟨hrunning, ha⟩).imp_right Nat.succ.inj)
      exact ⟨by omega, hloop⟩
    · exact ⟨Nat.add_comm _ _, hm⟩

theorem alike_run (hc : c.Fair) (inside : UInt32 → Prop)
    (hsame : ∀ p q, c.pcs p q → inside p → c.SameInstruction p q)
    (hlimit : c.left.config.instructionLimit ≤ c.right.config.instructionLimit)
    (hhits : m₁.HitsLimit c.left.program c.left.config →
      ¬ c.slack ∧ c.left.config.instructionLimit = c.right.config.instructionLimit)
    (hm : c.Alike m₁ m₂) (hl : m₁.stack.toList = c.leftBelow)
    (hr : m₂.stack.toList = c.rightBelow)
    (hw : m₁.RunWithin inside c.left.program c.left.config) :
    let r₁ := m₁.run c.left.program c.left.config
    let r₂ := m₂.run c.right.program c.right.config
    r₁.1 = r₂.1 ∧ c.Alike r₁.2 r₂.2 ∧ r₁.2.stack.toList = c.leftBelow ∧
      r₂.2.stack.toList = c.rightBelow := by
  have hl' : m₁.stack.size = c.left.base := by rw [hc.leftBase, ← hl, Array.length_toList]
  have hr' : m₂.stack.size = c.right.base := by rw [hc.rightBase, ← hr, Array.length_toList]
  have hsize : m₁.inst.segment.size = m₂.inst.segment.size := hm.inst.segment.length_eq
  have hctx₁ : (⟨c.left.program, c.left.config, m₁.stack.size⟩ : Context) = c.left := by rw [hl']
  have hctx₂ : (⟨c.right.program, c.right.config, m₂.stack.size⟩ : Context) = c.right := by
    rw [hr']
  have hroom := hc.room
  dsimp only
  unfold Machine.run
  dsimp only
  by_cases hfit : c.left.config.stackCapacity < m₁.stack.size + m₁.inst.segment.size
  · have htight := (hhits (.inl hfit)).1
    have heq := hc.tight htight
    have hnote : c.SameNote
        (.cannotResume m₁.inst.number (.stackOverflow c.left.config.stackCapacity))
        (.cannotResume m₂.inst.number (.stackOverflow c.right.config.stackCapacity)) :=
      hm.number_eq ▸ .cannotResume _ htight
    rw [if_pos hfit, if_pos (by omega)]
    exact ⟨rfl, (hm.withSegment (s := #[]) (t := #[]) .nil).fail hc hnote, hl, hr⟩
  · rw [if_neg hfit, if_neg (by omega)]
    have hwithin := hw (by omega)
    unfold Machine.HitsLimit at hhits
    rw [hctx₁] at hwithin hhits
    obtain ⟨hleft, hloop⟩ := alike_loop hc hsame (UInt32.le_iff_toNat_le.mp hlimit)
      (hm.resume hl hr) hwithin (fun hs ho => (hhits (.inr (.inl ho))).1 hs)
      (fun ha => (hhits (.inr (.inr ha))).imp_right (congrArg UInt32.toNat))
    rw [hctx₁, hctx₂, hl', hr']
    exact ⟨by omega, (hloop.endDivision hc).spill hc⟩

end

/-! ## The same program above other slots -/

theorem slot_alike_eq_iff {s t : Slot} : s.Alike Eq t ↔ s = t := by
  constructor
  · rintro (_ | ⟨pc, same⟩)
    · rfl
    · rw [same, ← pc]
  · rintro rfl
    cases s with
    | value v => exact .value v
    | record r => exact .record rfl rfl

theorem slots_alike_eq_iff {xs ys : List Slot} :
    List.Forall₂ (Slot.Alike Eq) xs ys ↔ xs = ys := by
  have : Slot.Alike Eq = Eq := by
    funext s t
    exact propext slot_alike_eq_iff
  rw [this, List.forall₂_eq_eq_eq]

theorem instance_alike_eq_iff {i j : Instance} : i.Alike Eq j ↔ i = j := by
  constructor
  · intro h
    have hsegment := slots_alike_eq_iff.mp h.segment
    rw [h.same, ← h.pc, ← h.entry, ← Array.toList_inj.mp hsegment]
    rfl
  · rintro rfl
    exact ⟨rfl, rfl, rfl, slots_alike_eq_iff.mpr rfl⟩

end Coupling

/-! ### Faults in a journal -/

/-- The diagnostic with its fault seen through a function. -/
def Diagnostic.mapFault (view : Fault → Fault) : Diagnostic → Diagnostic
  | .cannotResume script fault => .cannotResume script (view fault)
  | .aborted script pc fault => .aborted script pc (view fault)
  | d => d

theorem Diagnostic.severity_mapFault (view : Fault → Fault) (d : Diagnostic) :
    (d.mapFault view).severity = d.severity := by
  cases d <;> rfl

namespace Journal

def mapFault (view : Fault → Fault) (j : Journal) : Journal :=
  { j with entries := j.entries.map (·.mapFault view) }

theorem mapFault_id (j : Journal) : j.mapFault id = j := by
  have hid : (fun d : Diagnostic => d.mapFault id) = id := by
    funext d
    cases d <;> rfl
  simp [mapFault, hid]

theorem mapFault_note (view : Fault → Fault) (j : Journal) (d : Diagnostic) :
    (j.note d).mapFault view = (j.mapFault view).note (d.mapFault view) := by
  unfold note
  rw [Diagnostic.severity_mapFault]
  split
  · rename_i hkept
    rw [if_pos (show _ ≤ (j.mapFault view).detail from hkept), mapFault, mapFault, Array.map_push]
  · rename_i hdropped
    rw [if_neg (show ¬ _ ≤ (j.mapFault view).detail from hdropped)]

theorem mapFault_noteAll (view : Fault → Fault) (ds : List Diagnostic) (j : Journal) :
    (j.noteAll ds).mapFault view = (j.mapFault view).noteAll (ds.map (·.mapFault view)) := by
  induction ds generalizing j with
  | nil => rfl
  | cons d rest ih =>
    rw [noteAll, List.foldl_cons, ← noteAll, ih, mapFault_note, List.map_cons, noteAll, noteAll,
      List.foldl_cons]

end Journal

namespace Coupling

variable {ω : Type}

/-- The same program above other slots and under another configuration. Faults are compared as far
as a function shows them. -/
def shifted (view : Fault → Fault) (program : Program) (config config' : Config)
    (below below' : Array Slot) (slack : Prop) (origin : Instance) : Coupling ω ω where
  pcs := Eq
  worlds := Eq
  faults f g := view f = view g
  journals j₁ j₂ := j₁.mapFault view = j₂.mapFault view
  left := ⟨program, config, below.size⟩
  right := ⟨program, config', below'.size⟩
  leftBelow := below.toList
  rightBelow := below'.toList
  slack := slack
  origin := origin

theorem Alike.eq_of_shifted {view : Fault → Fault} {program : Program} {config config' : Config}
    {below below' : Array Slot} {slack : Prop} {origin : Instance} {m₁ m₂ : Machine ω}
    (h : (shifted view program config config' below below' slack origin).Alike m₁ m₂) :
    m₂ = { m₁ with stack := m₂.stack, journal := m₂.journal } := by
  have hinst : m₁.inst = m₂.inst := instance_alike_eq_iff.mp h.inst
  have hworld : m₁.world = m₂.world := h.world
  rw [hinst, hworld, h.memory, h.session, h.requests]

theorem operandsAlike_refl (op : Opcode) (a : Array Int32) : OperandsAlike Eq op a a := by
  cases op <;> simp [OperandsAlike]

theorem sameInstruction_of_program {ω₁ ω₂ : Type} {c : Coupling ω₁ ω₂} (hpcs : c.pcs = Eq)
    (hprogram : c.left.program = c.right.program) (hfaults : ∀ f, c.faults f f) (pc : UInt32) :
    c.SameInstruction pc pc := by
  cases hn : c.leftNumber pc with
  | error f =>
    refine .missing hn ?_ (hfaults f)
    rwa [rightNumber, ← hprogram]
  | ok r =>
    obtain ⟨raw, next⟩ := r
    have hn' : c.rightNumber pc = .ok (raw, next) := by rwa [rightNumber, ← hprogram]
    cases hop : Opcode.ofNumber? raw with
    | none => exact .unknown hn hn' hop (hpcs ▸ rfl)
    | some op =>
      have hoperands : c.rightOperands op next = c.leftOperands op next := by
        rw [rightOperands, leftOperands, hprogram]
      cases hf : (c.leftOperands op next).fault with
      | some f => exact .cut hn hn' hop hf (hoperands ▸ hf) (hfaults f) (by rw [hoperands])
      | none =>
        refine .whole hn hn' hop hf (hoperands ▸ hf) ?_ ?_
        · rw [hpcs, hoperands]
        · rw [hpcs, hoperands]
          exact operandsAlike_refl op _

theorem function_alike_self (program : Program) (index : UInt32) :
    Option.Rel (Function.Alike Eq) (program.function? index) (program.function? index) := by
  cases program.function? index with
  | none => exact .none
  | some f => exact .some ⟨rfl, rfl, rfl, fun _ => rfl⟩

section

variable [Host ω] {view : Fault → Fault} {program : Program} {config config' : Config}
  {slack : Prop}

/-- Faults look the same where they are the same. -/
theorem fair_shifted {below below' : Array Slot} {origin : Instance}
    (hlocale : config.locale = config'.locale)
    (hroom : config.stackCapacity + below'.size ≤ config'.stackCapacity + below.size)
    (htight : ¬ slack → config.stackCapacity + below'.size = config'.stackCapacity + below.size ∧
      config.instructionLimit = config'.instructionLimit ∧
      view (.stackOverflow config.stackCapacity) = view (.stackOverflow config'.stackCapacity))
    (hframes : ∀ k, view (.badFrame (below.size + k)) = view (.badFrame (below'.size + k))) :
    (shifted (ω := ω) view program config config' below below' slack origin).Fair where
  hosts q w₁ w₂ h := by
    obtain rfl : w₁ = w₂ := h
    exact ⟨rfl, rfl⟩
  leftBase := Array.length_toList.symm
  rightBase := Array.length_toList.symm
  room := hroom
  tight h := (htight h).1
  text i := congrArg (program.text? i) hlocale
  functions := function_alike_self program
  faults f g h := by
    show view f = view g
    cases h with
    | overflow tight => exact (htight tight).2.2
    | badFrame k => exact hframes k
    | _ => rfl
  notes d e j₁ j₂ h hj := by
    have hde : d.mapFault view = e.mapFault view := by
      cases h with
      | cannotResume script tight =>
        exact congrArg (Diagnostic.cannotResume script) (htight tight).2.2
      | runaway script tight => exact congrArg (Diagnostic.runaway script) (htight tight).2.1
      | aborted script pc fault =>
        obtain rfl := pc
        exact congrArg (Diagnostic.aborted script _) fault
      | unknownOpcode script number pc =>
        obtain rfl := pc
        rfl
      | executing script op pc =>
        obtain rfl := pc
        rfl
      | textMissing index => exact congrArg (Diagnostic.textMissing index) hlocale
      | _ => rfl
    have hj' : j₁.mapFault view = j₂.mapFault view := hj
    show (j₁.note d).mapFault view = (j₂.note e).mapFault view
    rw [Journal.mapFault_note, Journal.mapFault_note, hde, hj']
  remarks q j₁ j₂ hj := by
    have hj' : j₁.mapFault view = j₂.mapFault view := hj
    show (j₁.noteAll _).mapFault view = (j₂.noteAll _).mapFault view
    rw [Journal.mapFault_noteAll, Journal.mapFault_noteAll, hj']

/-- A turn above other slots and under another configuration. -/
theorem run_shifted {m : Machine ω} {lower : Array Slot}
    (hc : (shifted (ω := ω) view program config config' m.stack lower slack m.inst).Fair)
    (hlimit : config.instructionLimit ≤ config'.instructionLimit)
    (hhits : m.HitsLimit program config →
      ¬ slack ∧ config.instructionLimit = config'.instructionLimit) :
    let r := m.run program config
    let r' := Machine.run program config' { m with stack := lower }
    r.1 = r'.1 ∧ r.2.stack = m.stack ∧ r'.2.stack = lower ∧
      (shifted view program config config' m.stack lower slack m.inst).Alike r.2 r'.2 := by
  have hm : (shifted view program config config' m.stack lower slack m.inst).Alike m
      { m with stack := lower } :=
    { inst := instance_alike_eq_iff.mpr rfl
      origin := .refl _
      status := fun _ h => h
      slots := ⟨[], [], (List.append_nil _).symm, (List.append_nil _).symm, .nil⟩
      memory := rfl
      session := rfl
      requests := rfl
      world := rfl
      journal := rfl }
  obtain ⟨hcount, halike, hl, hr⟩ := alike_run hc (fun _ => True)
    (fun p q hpq _ => (show p = q from hpq) ▸ sameInstruction_of_program rfl rfl (fun _ => rfl) p)
    hlimit hhits hm rfl rfl fun _ => Machine.within_true _ _ _
  exact ⟨hcount, Array.toList_inj.mp hl, Array.toList_inj.mp hr, halike⟩

end

end Coupling

namespace Machine

variable {ω : Type} [Host ω]

/-- What a turn leaves as it was: the stack below, and all of the instance that is not about its
code. Only a level makes an instance wait for the end of a script. -/
theorem continues_run (program : Program) (config : Config) (m : Machine ω)
    (hs : ∀ n, m.inst.status ≠ .scriptWait n) :
    m.inst.Continues (m.run program config).2.inst ∧
      (∀ n, (m.run program config).2.inst.status ≠ .scriptWait n) ∧
      (m.run program config).2.stack = m.stack := by
  have hfair : (Coupling.shifted (ω := ω) id program config config m.stack m.stack False
      m.inst).Fair :=
    Coupling.fair_shifted rfl (Nat.le_refl _) (fun _ => ⟨rfl, rfl, rfl⟩) fun _ => rfl
  obtain ⟨-, hstack, -, halike⟩ := Coupling.run_shifted hfair (UInt32.le_refl _)
    fun _ => ⟨id, rfl⟩
  exact ⟨halike.origin, fun n hn => hs n (halike.status n hn), hstack⟩

end Machine

end LevelScript
