import LevelScript.Proofs.Level.Trails
import LevelScript.Proofs.Machine.Calls

/-!
# Activations over a run

From a call to the return that takes its record off the stack, whatever is executed in between and
in however many turns, the slots under the function's frame have no influence on the instance and
stay as they were. The exception is a call that has fewer operands than its function has arguments,
and takes the record for one of them: its function has the caller's slots for variables.

* `Machine.Isolated`: a step does not depend on the lowest slots, and leaves them.
* `Activation.Stands`: the activation goes on, over the slots that were there before it.
* `Occasion.frames_isolated_unless_taken`: the instants of an activation.
* `Overreach.variable_of_caller`: a function that reads a slot of its caller.
-/

namespace LevelScript

/-! ## The lowest slots -/

namespace Machine

variable {ω : Type}

/-- The machine with other slots at the bottom of its stack. -/
def withLower (m : Machine ω) (lower : Array Slot) : Machine ω :=
  { m with stack := lower ++ m.stack.extract lower.size m.stack.size }

theorem withLower_on (m : Machine ω) {lower lower' : Array Slot} (h : lower'.size = lower.size) :
    (m.on lower).withLower lower' = m.on lower' := by
  simp [withLower, on, h]

theorem place_on {ctx : Context} (m : Machine ω) {others : Array Slot}
    (h : others.size = ctx.base) (lower : Array Slot) :
    (m.on (others ++ lower)).place ctx =
      ⟨m.inst.pc, m.inst.frame, m.inst.function, lower ++ m.stack⟩ := by
  have hslots : (others ++ lower ++ m.stack).extract ctx.base
      (others ++ lower ++ m.stack).size = lower ++ m.stack := by
    rw [Array.append_assoc, Array.size_append, ← h, Array.extract_append_right, Array.extract_size]
  rw [place, on, hslots]

/-- The instance is about to call a function that takes the slot for an argument. -/
def Takes (ctx : Context) (slot : Nat) (m : Machine ω) : Prop :=
  ∃ f ∈ m.callee? ctx, f.argCount.toNat ≤ (m.place ctx).slots.size ∧
    (m.place ctx).slots.size ≤ slot + f.argCount.toNat

instance (ctx : Context) (slot : Nat) (m : Machine ω) : Decidable (m.Takes ctx slot) :=
  inferInstanceAs (Decidable (∃ f ∈ _, _))

variable [Host ω]

/-- Whatever the instance's lowest slots are, the step is the same and leaves them there. -/
def Isolated (ctx : Context) (count : Nat) (m : Machine ω) : Prop :=
  ∀ lower, lower.size = ctx.base + count →
    (m.withLower lower).step ctx = (m.step ctx).withLower lower

/-- Whatever the instance's lowest slots are, the step ends it and does the same to the memory, the
session, the world and the requests. Only the stack and the journal, which names the fault, depend
on them. -/
def Doomed (ctx : Context) (count : Nat) (m : Machine ω) : Prop :=
  ∃ m' : Machine ω, m'.inst.status = .pleaseRemove ∧ ∀ lower, lower.size = ctx.base + count →
    ∃ slots journal, (m.withLower lower).step ctx = { m' with stack := slots, journal := journal }

/-- A restart leaves the instance nothing on the stack. -/
theorem step_restart {ctx : Context} {m : Machine ω} (h : m.opcode? ctx = some .restart) :
    ((m.step ctx).place ctx).slots = #[] := by
  cases hinst : m.instruction ctx with
  | error f =>
    rw [opcode?, hinst] at h
    cases h
  | ok inst =>
    have hop : inst.opcode = some .restart := (Activation.opcode?_eq hinst).symm.trans h
    have hstep := step_of_ok hinst hop (rfl : _ = EStateM.Result.ok () _)
    rw [hstep]
    show (m.stack.shrink (ctx.base + 0)).extract ctx.base _ = #[]
    rw [Array.extract_eq_empty_iff, Array.size_shrink]
    omega

end Machine

/-! ## One step of an activation -/

namespace Activation

variable {ω : Type} {a : Activation} {lower : Array Slot} {ctx : Context} {m : Machine ω}

/-- The activation goes on, over the given slots of the instance. -/
def Stands (a : Activation) (lower : Array Slot) (ctx : Context) (m : Machine ω) : Prop :=
  ∃ others upper, others.size = ctx.base ∧ m = upper.on (others ++ lower) ∧ a.Holds ctx upper

/-- How high the record lies. -/
def height (a : Activation) : Nat := a.base.toNat + a.size

/-- The place of the caller after a return. -/
def returnPlace (a : Activation) (lower : Array Slot) (v : Int32) : Place :=
  ⟨a.record.returnPc, a.record.callerFrame, a.record.callerFunction,
    lower ++ if a.record.discardResult then #[] else #[.value v]⟩

variable (hlower : lower.size = a.base.toNat)
include hlower

/-- The record lies where the call put it. -/
theorem Stands.record (h : a.Stands lower ctx m) :
    (m.place ctx).slots[a.height]? = some (.record a.record) := by
  obtain ⟨others, upper, hothers, rfl, hholds⟩ := h
  rw [Machine.place_on upper hothers, height, Array.getElem?_append_right (by omega), hlower,
    Nat.add_sub_cancel_left]
  exact hholds.record

/-- The slots under the frame are as they were. -/
theorem Stands.under (h : a.Stands lower ctx m) :
    (m.place ctx).slots.extract 0 a.base.toNat = lower := by
  obtain ⟨others, upper, hothers, rfl, -⟩ := h
  rw [Machine.place_on upper hothers, ← hlower]
  simp

/-- No record is left after the return. -/
theorem returnPlace_record (v : Int32) :
    (a.returnPlace lower v).slots[a.height]? ≠ some (.record a.record) := by
  rw [returnPlace, height, Array.getElem?_append_right (by omega), hlower, Nat.add_sub_cancel_left]
  cases a.record.discardResult with
  | true => simp
  | false =>
    rw [if_neg (by simp), Array.getElem?_singleton]
    split <;> simp

variable [Host ω]

/-- What a step can do while the activation goes on. -/
theorem Stands.step (h : a.Stands lower ctx m)
    (hcapacity : ctx.config.stackCapacity ≤ 2 ^ 32) {f : Function}
    (hf : ctx.program.function? a.function = some f) (hsize : f.frameSize = a.size)
    (hfree : ¬ m.Takes ctx a.height) :
    m.opcode? ctx = some .restart ∨ m.Doomed ctx a.base.toNat ∨
    m.Isolated ctx a.base.toNat ∧
      (a.Stands lower ctx (m.step ctx) ∨
        a.Own m ∧ ∃ v, m.Returns ctx v ∧ (m.step ctx).place ctx = a.returnPlace lower v) := by
  obtain ⟨others, upper, hothers, rfl, hholds⟩ := h
  have hfloor : (others ++ lower).size = a.floor ctx := by
    rw [Array.size_append, hothers, hlower, floor]
  have hlow {m' : Machine ω} {slots : Array Slot} (hslots : slots.size = ctx.base + a.base.toNat) :
      (m'.on (others ++ lower)).withLower slots = m'.on slots :=
    m'.withLower_on (hslots.trans hfloor.symm)
  have hkept : ¬ a.Swallowed ctx upper := by
    rintro ⟨g, hg, hargs, hdeep⟩
    refine hfree ⟨g, hg, ?_⟩
    rw [Machine.place_on upper hothers, Array.size_append, hlower]
    exact ⟨hargs, hdeep⟩
  rcases step_cases hholds hcapacity hf hsize hkept with hrestart | hshields | ⟨hown, v, m', hback⟩
  · exact .inl hrestart
  · rcases hshields with ⟨m', hm', hstep⟩ | ⟨m', hstatus, hend⟩
    · refine .inr (.inr ⟨fun slots hslots => ?_, .inl ⟨others, m', hothers, hstep _ hfloor, hm'⟩⟩)
      rw [hlow hslots, hstep slots hslots, hstep _ hfloor, hlow hslots]
    · refine .inr (.inl ⟨m', hstatus, fun slots hslots => ?_⟩)
      rw [hlow hslots]
      exact hend slots hslots
  · obtain ⟨hreturns, hstep⟩ := hback _ hfloor
    refine .inr (.inr ⟨fun slots hslots => ?_, .inr ⟨hown, v, hreturns, ?_⟩⟩)
    · rw [hlow hslots, (hback slots hslots).2, hstep, hlow hslots]
    · rw [hstep, Machine.place_on _ hothers]
      rfl

end Activation

/-! ## Instants of an activation -/

namespace Activation

variable {ω : Type} [Host ω] {a : Activation} {lower : Array Slot} {l : Level} {x y : Instant ω}

variable (hlower : lower.size = a.base.toNat)
include hlower

/-- A return from the function itself. -/
theorem Stands.returns {ctx : Context} {m : Machine ω} (h : a.Stands lower ctx m)
    {f : Function} (hf : ctx.program.function? a.function = some f) (hsize : f.frameSize = a.size)
    (hown : a.Own m) {v : Int32} (hv : m.Returns ctx v) :
    (m.step ctx).place ctx = a.returnPlace lower v := by
  obtain ⟨others, upper, hothers, rfl, hholds⟩ := h
  have hfloor : (others ++ lower).size = a.floor ctx := by
    rw [Array.size_append, hothers, hlower, floor]
  obtain ⟨m', hback⟩ := step_return hholds hf hsize hown hfloor hv
  rw [(hback _ hfloor).2, Machine.place_on _ hothers]
  rfl

/-- The activation goes on at the next instant, also if that is in a later turn. -/
theorem Stands.hand (h : a.Stands lower x.ctx x.next)
    (hxy : x.Precedes y) (hy : y.Within l) : a.Stands lower y.ctx y.machine := by
  obtain ⟨others, upper, hothers, hnext, hholds⟩ := h
  have hhere : y.here = ⟨upper.inst.pc, upper.inst.frame, upper.inst.function,
      lower ++ upper.stack⟩ := by
    rw [hxy.here, Instant.after, hnext, Machine.place_on upper hothers]
  have hslots : y.machine.stack.extract y.ctx.base y.machine.stack.size = lower ++ upper.stack :=
    congrArg Place.slots hhere
  have hframe : y.machine.inst.frame = upper.inst.frame := congrArg Place.frame hhere
  have hfunction : y.machine.inst.function = upper.inst.function := congrArg Place.function hhere
  have hstack : y.machine.stack =
      y.machine.stack.extract 0 y.ctx.base ++ lower ++ upper.stack := by
    rw [Array.append_assoc, ← hslots, Array.extract_append_extract, Nat.zero_min,
      Nat.max_eq_right hy.base_le, Array.extract_size]
  have hbase : (y.machine.stack.extract 0 y.ctx.base).size = y.ctx.base := by
    have hle := hy.base_le
    rw [Array.size_extract]
    omega
  refine ⟨y.machine.stack.extract 0 y.ctx.base, { y.machine with stack := upper.stack }, hbase, ?_,
    ?_, hholds.record, hholds.callers, ?_⟩
  · rw [Machine.on]
    dsimp only
    rw [← hstack]
  · show a.Inside y.machine.inst.frame y.machine.inst.function
    rw [hframe, hfunction]
    exact hholds.current
  · have hsize : y.machine.stack.size = y.ctx.base + lower.size + upper.stack.size := by
      conv_lhs => rw [hstack]
      rw [Array.size_append, Array.size_append, hbase]
    have hle := hy.size_le
    show a.floor y.ctx + upper.stack.size ≤ y.ctx.config.stackCapacity
    rw [hy.config, floor]
    omega

/-- A step that ends the instance whatever lies under the frame ends it. -/
theorem Stands.doomed {ctx : Context} {m : Machine ω} (h : a.Stands lower ctx m)
    (hdoomed : m.Doomed ctx a.base.toNat) :
    (m.step ctx).inst.status = .pleaseRemove := by
  obtain ⟨others, upper, hothers, rfl, -⟩ := h
  obtain ⟨m', hstatus, hend⟩ := hdoomed
  obtain ⟨_, _, hstep⟩ := hend (others ++ lower) (by rw [Array.size_append, hothers, hlower])
  rw [upper.withLower_on rfl] at hstep
  rw [hstep]
  exact hstatus

/-- The instants of an activation: its record is there, and no call takes it for an argument. -/
structure Lasts (a : Activation) (x : Instant ω) : Prop where
  record : x.here.slots[a.height]? = some (.record a.record)
  free : ¬ x.machine.Takes x.ctx a.height

instance (a : Activation) (x : Instant ω) : Decidable (a.Lasts x) :=
  decidable_of_iff (x.here.slots[a.height]? = some (.record a.record) ∧
    ¬ x.machine.Takes x.ctx a.height) ⟨fun h => ⟨h.1, h.2⟩, fun h => ⟨h.record, h.free⟩⟩

/-- What the next instruction does in an activation. -/
theorem Stands.instant (h : a.Stands lower x.ctx x.machine)
    (hx : x.Within l) (hcapacity : l.config.stackCapacity ≤ 2 ^ 32) {f : Function}
    (hf : l.program.function? a.function = some f) (hsize : f.frameSize = a.size)
    (hlasts : a.Lasts x) :
    x.machine.opcode? x.ctx = some .restart ∨ x.machine.Doomed x.ctx a.base.toNat ∨
    x.machine.Isolated x.ctx a.base.toNat ∧
      (a.Stands lower x.ctx x.next ∨
        a.Own x.machine ∧ ∃ v, x.machine.Returns x.ctx v ∧ x.after = a.returnPlace lower v) :=
  h.step hlower (by rw [hx.config]; exact hcapacity) (by rw [hx.program]; exact hf) hsize
    hlasts.free

/-- An activation goes on from instant to instant as long as its record is there. -/
theorem stands_of_chain {xs : List (Instant ω)} (hchain : (x :: xs).IsChain Instant.Precedes)
    (hnext : a.Stands lower x.ctx x.next)
    (hwithin : ∀ y ∈ xs, y.Within l) (hcapacity : l.config.stackCapacity ≤ 2 ^ 32) {f : Function}
    (hf : l.program.function? a.function = some f) (hsize : f.frameSize = a.size)
    (hlasts : ∀ y ∈ xs, a.Lasts y) : ∀ y ∈ xs, a.Stands lower y.ctx y.machine := by
  induction xs generalizing x with
  | nil => exact fun y hy => absurd hy List.not_mem_nil
  | cons y ys ih =>
    obtain ⟨hxy, hrest⟩ := List.isChain_cons_cons.mp hchain
    have hy := hwithin y List.mem_cons_self
    have hstands := hnext.hand hlower hxy hy
    intro z hz
    rcases List.mem_cons.mp hz with rfl | hz
    · exact hstands
    · refine ih hrest ?_ (fun w hw => hwithin w (List.mem_cons_of_mem _ hw))
        (fun w hw => hlasts w (List.mem_cons_of_mem _ hw)) z hz
      -- Another instant follows, and the record is still there: nothing else can have happened.
      obtain ⟨w, ws, rfl⟩ := List.exists_cons_of_ne_nil (List.ne_nil_of_mem hz)
      obtain ⟨hyw, -⟩ := List.isChain_cons_cons.mp hrest
      have hrecord := (hlasts w (by simp)).record
      rw [hyw.here] at hrecord
      rcases hstands.instant hlower hy hcapacity hf hsize (hlasts y List.mem_cons_self) with
        hrestart | hdoomed | ⟨-, hgoes | ⟨-, v, -, hback⟩⟩
      · rw [Instant.after, Instant.next, Machine.step_restart hrestart] at hrecord
        simp at hrecord
      · exact absurd (hstands.doomed hlower hdoomed) hyw.alive
      · exact hgoes
      · rw [hback] at hrecord
        exact absurd hrecord (returnPlace_record hlower v)

end Activation

/-- A call starts an activation over the slots under its arguments. -/
theorem Instant.stands_call {ω : Type} [Host ω] {l : Level} {x : Instant ω} (hx : x.Within l)
    (hcapacity : l.config.stackCapacity ≤ 2 ^ 32) {index : UInt32} {f : Function} {discard : Bool}
    {next : UInt32} (hcall : x.machine.Calls x.ctx index f discard next)
    (hrun : x.next.inst.status ≠ .pleaseRemove) :
    let a := x.machine.activation x.ctx index f discard next
    a.base.toNat + f.argCount.toNat = x.here.slots.size ∧ a.Own x.next ∧
    a.Stands (x.here.slots.extract 0 a.base.toNat) x.ctx x.next := by
  intro a
  have hbase := hx.base_le
  have hsize : x.here.slots.size = x.machine.stack.size - x.ctx.base := by
    simp [here, Machine.place]
  obtain ⟨hargs, hoffset, m, hholds, hown, hstep⟩ :=
    Machine.step_call hcall hbase (by rw [hx.config]; exact hcapacity) hrun
  change a.base.toNat = _ at hoffset
  refine ⟨by omega, by rw [Instant.next, hstep]; exact hown,
    x.machine.stack.extract 0 x.ctx.base, m, ?_, ?_, hholds⟩
  · rw [Array.size_extract]
    omega
  · rw [Instant.next, hstep, here, Machine.place]
    dsimp only
    rw [Array.extract_extract, Nat.add_zero, Array.extract_append_extract]
    congr 2
    omega

namespace Occasion

variable {ω : Type} [Host ω]

/-- **Frames are isolated as long as no call takes a record for an argument.** A call that does not
end the instance puts a record above its function's frame. As long as it is there, in whatever turns
and calls within the function, and is not taken for an argument, the slots under the frame are those
that were there at the call. No instruction depends on them or changes them, but for a restart, and
an instruction that ends the instance whatever they are. A return from the function leaves exactly
them, with the result if it is not discarded, and puts the caller back where it was. Nothing else
removes the record, except for a restart and the end of the instance. Offsets of frames have 32
bits, so the stack has to be of that size at most. -/
theorem frames_isolated_unless_taken {l : Level} (hl : l.Reachable Level.Fresh fun _ => True)
    (hcapacity : l.config.stackCapacity ≤ 2 ^ 32) {os : List (Occasion ω)}
    {earlier later : List (Simulation ω × Act)} (hm : moments l os = earlier ++ later) {h : Handle}
    {past inner future : List (Instant ω)} {call : Instant ω}
    (htrail : trail h later = past ++ call :: (inner ++ future)) {index : UInt32} {f : Function}
    {discard : Bool} {next : UInt32} (hcall : call.machine.Calls call.ctx index f discard next)
    (hrun : call.next.inst.status ≠ .pleaseRemove) :
    let a := call.machine.activation call.ctx index f discard next
    let under := call.here.slots.extract 0 a.base.toNat
    (a.base.toNat + f.argCount.toNat = call.here.slots.size ∧ a.Own call.next ∧
      call.after.slots[a.height]? = some (.record a.record) ∧
      call.after.slots.extract 0 a.base.toNat = under) ∧
    ((∀ x ∈ inner, a.Lasts x) → ∀ x ∈ inner,
      x.here.slots.extract 0 a.base.toNat = under ∧
      (x.machine.Isolated x.ctx a.base.toNat ∨ x.machine.opcode? x.ctx = some .restart ∨
        x.machine.Doomed x.ctx a.base.toNat) ∧
      (∀ v, a.Own x.machine → x.machine.Returns x.ctx v → x.after = a.returnPlace under v) ∧
      (x.after.slots[a.height]? = some (.record a.record) ∨
        (∃ v, a.Own x.machine ∧ x.machine.Returns x.ctx v) ∨
        x.machine.opcode? x.ctx = some .restart ∨ x.next.inst.status = .pleaseRemove)) := by
  intro a under
  have hcourse := course_moments l os
  rw [hm] at hcourse
  obtain ⟨l₁, hearlier, hlater⟩ := hcourse.split
  have hchain := hlater.chain_trail (hearlier.sound hl.atRest.sound) h
  rw [htrail] at hchain
  have hinner : (call :: inner).IsChain Instant.Precedes := by
    have hrest := hchain.right_of_append
    rw [← List.cons_append] at hrest
    exact hrest.left_of_append
  have hwithin : ∀ x ∈ call :: inner, x.Within l := by
    intro x hx
    have hmem : x ∈ trail h later := by
      rw [htrail, ← List.cons_append]
      exact List.mem_append_right _ (List.mem_append_left _ hx)
    exact (hlater.within_of_mem_trail hmem).of_stays hearlier.stays
  have hin := hwithin call List.mem_cons_self
  obtain ⟨hargs, hown, hstands⟩ := Instant.stands_call hin hcapacity hcall hrun
  change a.base.toNat + f.argCount.toNat = _ at hargs
  have hunder : under.size = a.base.toNat := by
    rw [Array.size_extract]
    omega
  have hf : l.program.function? a.function = some f := by
    rw [← hin.program]
    exact hcall.function
  refine ⟨⟨hargs, hown, hstands.record hunder, hstands.under hunder⟩, fun hlasts x hx => ?_⟩
  have hxl : x.Within l := hwithin x (List.mem_cons_of_mem _ hx)
  have hxs : a.Stands under x.ctx x.machine :=
    Activation.stands_of_chain hunder hinner hstands
      (fun y hy => hwithin y (List.mem_cons_of_mem _ hy)) hcapacity hf rfl hlasts x hx
  have hreturn : ∀ v, a.Own x.machine → x.machine.Returns x.ctx v →
      x.after = a.returnPlace under v :=
    fun v hown hv => hxs.returns hunder (by rw [hxl.program]; exact hf) rfl hown hv
  rcases hxs.instant hunder hxl hcapacity hf rfl (hlasts x hx) with
    hrestart | hdoomed | ⟨hisolated, hgoes | ⟨hown, v, hv, -⟩⟩
  · exact ⟨hxs.under hunder, .inr (.inl hrestart), hreturn, .inr (.inr (.inl hrestart))⟩
  · exact ⟨hxs.under hunder, .inr (.inr hdoomed), hreturn,
      .inr (.inr (.inr (hxs.doomed hunder hdoomed)))⟩
  · exact ⟨hxs.under hunder, .inl hisolated, hreturn, .inl (hgoes.record hunder)⟩
  · exact ⟨hxs.under hunder, .inl hisolated, hreturn, .inr (.inl ⟨v, hown, hv⟩)⟩

end Occasion

namespace Overreach

open Simulation

/-- Script 1 calls function 0, which waits for a tick and calls function 1 with two operands.
Function 1 returns its first argument. Script 2 calls function 2, which calls function 1 without
operands. -/
def program : Program :=
  { (default : Program) with
    image := #[167, 77, 203, 0, 1, 173, 1, 176, 5, 6, 203, 1, 206, 28, 0, 206,
      167, 77, 203, 2, 1, 203, 1, 1]
    layout := .enhanced .compact
    scripts := [{ (default : Script) with number := 1 },
      { (default : Script) with number := 2, entry := 16 }]
    functions := #[⟨0, 0, true, 0, 5⟩, ⟨2, 0, true, 0, 13⟩, ⟨0, 0, true, 0, 21⟩] }

def idle : Simulation StillWorld := ⟨.start program 1 .standard, .empty, default, default⟩

def occasion (op : Operation) : Occasion StillWorld := ⟨op, .empty, default, default⟩

/-- A script's instance is about to have its first turn. -/
def ready (script : Int32) : Simulation StillWorld := (idle.start { script := script }).2.dropReady

/-- Script 1 waits, in function 0. -/
def waiting : Simulation StillWorld :=
  (occasion .tick).enter ((ready 1).act (.turn ⟨0, 0⟩)).level

def firstTurn (script : Int32) : List (Instant StillWorld) :=
  (ready script).instants ⟨0, 0⟩ (.turn ⟨0, 0⟩)

def secondTurn : List (Instant StillWorld) := (waiting.act .tick).instants ⟨0, 0⟩ (.turn ⟨0, 0⟩)

/-- The call of function 0 by script 1. -/
def waitingCall : Activation := ⟨1, 0, 0, ⟨4, .script, none, false⟩⟩

/-- The call of function 2 by script 2. -/
def overCall : Activation := ⟨1, 2, 0, ⟨20, .script, none, false⟩⟩

/-- The opcode that an instance is at, its first operand, and the offset behind it. -/
def instruction? (x : Instant StillWorld) : Option (Option Opcode × UInt32 × UInt32) :=
  (x.machine.instruction x.ctx).toOption.map fun inst =>
    (inst.opcode, (inst.operands.getD 0 0).toUInt32, inst.next)

theorem calls_of_instruction? {x : Instant StillWorld} {index next : UInt32} {discard : Bool}
    {f : Function} (h : instruction? x = some (some (.call discard), index, next))
    (hf : x.ctx.program.function? index = some f) :
    x.machine.Calls x.ctx index f discard next := by
  obtain ⟨inst, hinst, heq⟩ := Option.map_eq_some_iff.mp h
  refine ⟨⟨inst, ?_, ?_⟩, hf⟩
  · cases hrun : x.machine.instruction x.ctx with
    | error g =>
      rw [hrun] at hinst
      cases hinst
    | ok inst' =>
      rw [hrun] at hinst
      rw [Option.some.inj hinst]
  · obtain ⟨hop, hrest⟩ := Prod.mk.inj heq
    obtain ⟨hindex, hnext⟩ := Prod.mk.inj hrest
    exact ⟨hop, hindex, hnext⟩

section Launches

variable {s t : Simulation StillWorld} {p : Launch} {h : Handle} {rest : List Act}

theorem moments_launch (hacts : Operation.acts s (.launch p) =
      .start p :: .takeReady :: .turn h :: rest) :
    s.moments (Operation.acts s (.launch p)) = [(s, .start p), ((s.start p).2, .takeReady)] ++
      ((s.start p).2.dropReady, .turn h) ::
        ((s.start p).2.dropReady.act (.turn h)).moments rest := by
  rw [hacts]
  rfl

theorem moments_tick (hacts : s.tickActs = .tick :: .turn h :: .remove h :: rest) :
    s.moments s.tickActs = (s, .tick) :: (s.act .tick, .turn h) ::
      ((s.act .tick).act (.turn h), .remove h) ::
        (((s.act .tick).act (.turn h)).act (.remove h)).moments rest := by
  rw [hacts]
  rfl

/-- A turn after which the instance is removed is its last. -/
theorem trail_last (ms : List (Simulation StillWorld × Act))
    (hthere : ((s.act (.turn h)).level.instance? h).isSome = true)
    (hgone : (((s.act (.turn h)).act (.remove h)).level.instance? h).isSome = false) :
    trail h ((s, .turn h) :: (s.act (.turn h), .remove h) :: ms) = s.instants h (.turn h) := by
  have hremove : (s.act (.turn h)).instants h (.remove h) = [] := rfl
  rw [trail, if_pos hthere, trail, if_neg (by rw [hgone]; simp), hremove, List.append_nil,
    List.append_nil]

end Launches

theorem launch_facts :
    ((idle.start { script := 1 }).2.level.pending = [] ∧
      (idle.start { script := 1 }).2.level.ready = [⟨0, 0⟩] ∧
      (ready 1).visitActs ⟨0, 0⟩ = [.turn ⟨0, 0⟩]) ∧
    (((ready 1).act (.turn ⟨0, 0⟩)).level.pending = [] ∧
      ((ready 1).act (.turn ⟨0, 0⟩)).level.ready = [] ∧
      ((ready 1).act (.turn ⟨0, 0⟩)).reapActs = [] ∧
      (((ready 1).act (.turn ⟨0, 0⟩)).level.instance? ⟨0, 0⟩).isSome = true) ∧
    ((firstTurn 1).length = 3 ∧
      (∀ x ∈ (firstTurn 1)[1]?, instruction? x = some (some (.call false), 0, 4) ∧
        x.ctx.program.function? 0 = some ⟨0, 0, true, 0, 5⟩ ∧ x.next.inst.status = .running ∧
        x.machine.activation x.ctx 0 ⟨0, 0, true, 0, 5⟩ false 4 = waitingCall ∧
        x.here.slots = #[.value 77]) ∧
      ∀ x ∈ (firstTurn 1)[2]?, x.machine.opcode? x.ctx = some (.delay .bytes) ∧
        waitingCall.Lasts x) := by
  decide +kernel

theorem tick_facts :
    (waiting.level.isReplica = false ∧ (waiting.act .tick).dueHandles = [⟨0, 0⟩] ∧
      (waiting.act .tick).visitActs ⟨0, 0⟩ = [.turn ⟨0, 0⟩, .remove ⟨0, 0⟩]) ∧
    (((waiting.act .tick).level.instance? ⟨0, 0⟩).isSome = true ∧
      (((waiting.act .tick).act (.turn ⟨0, 0⟩)).level.instance? ⟨0, 0⟩).isSome = true ∧
      ((((waiting.act .tick).act (.turn ⟨0, 0⟩)).act (.remove ⟨0, 0⟩)).level.instance?
        ⟨0, 0⟩).isSome = false) ∧
    (secondTurn.length = 6 ∧
      (∀ x ∈ secondTurn.take 5, waitingCall.Lasts x) ∧
      (secondTurn.take 5).map (fun x => x.machine.opcode? x.ctx) =
        [some (.pushBytes .two), some (.call false), some (.pushVar .script), some .returnVal,
          some .returnVal] ∧
      ∀ x ∈ secondTurn[4]?, x.machine.opcode? x.ctx = some .returnVal ∧
        x.machine.top? x.ctx = some 5 ∧ x.here.frame = .stack 1 ∧ x.here.function = some 0) := by
  decide +kernel

theorem acts_one : Operation.acts idle (.launch { script := 1 }) =
    [.start { script := 1 }, .takeReady, .turn ⟨0, 0⟩] := by
  obtain ⟨⟨hpending, hready, hvisit⟩, ⟨hpending', hready', hreap, -⟩, -⟩ := launch_facts
  have hturn : (ready 1).visit ⟨0, 0⟩ = (ready 1).act (.turn ⟨0, 0⟩) := by
    rw [← actAll_visitActs, hvisit, actAll_cons]
    exact List.foldl_nil
  have hdone : ((ready 1).visit ⟨0, 0⟩).settleActs 1023 = [] := by
    rw [hturn, settleActs_done hpending' hready', hreap]
  rw [ready] at hvisit hdone
  rw [Operation.acts_launch rfl hpending hready, hvisit, hdone]
  rfl

theorem apply_one : (occasion (.launch { script := 1 })).apply idle.level =
    ((ready 1).act (.turn ⟨0, 0⟩)).level := by
  have hrun := Operation.run_eq_acts idle (.launch { script := 1 })
  rw [acts_one, actAll_cons, actAll_cons, actAll_cons] at hrun
  exact congrArg level hrun

/-- The first turn of script 1 is in the launch, and its second in the tick. -/
theorem moments_one : ∃ rest,
    Occasion.moments idle.level [occasion (.launch { script := 1 }), occasion .tick] =
      [(idle, .start { script := 1 }), ((idle.start { script := 1 }).2, .takeReady)] ++
        (ready 1, .turn ⟨0, 0⟩) :: (waiting, .tick) :: (waiting.act .tick, .turn ⟨0, 0⟩) ::
          ((waiting.act .tick).act (.turn ⟨0, 0⟩), .remove ⟨0, 0⟩) :: rest := by
  obtain ⟨⟨hrole, hdue, hvisit⟩, -⟩ := tick_facts
  obtain ⟨rest, htick⟩ : ∃ rest, waiting.tickActs =
      .tick :: .turn ⟨0, 0⟩ :: .remove ⟨0, 0⟩ :: rest := by
    rw [tickActs, if_neg (by simp [hrole]), hdue, passActs, hvisit]
    exact ⟨_, rfl⟩
  have hlaunch := moments_launch acts_one
  have hlater := moments_tick htick
  refine ⟨(((waiting.act .tick).act (.turn ⟨0, 0⟩)).act (.remove ⟨0, 0⟩)).moments rest, ?_⟩
  rw [Occasion.moments, Occasion.moments, Occasion.moments, apply_one, List.append_nil]
  show idle.moments (Operation.acts idle (.launch { script := 1 })) ++
    waiting.moments waiting.tickActs = _
  rw [hlaunch, hlater, List.append_assoc, List.cons_append]
  rfl

theorem trail_one (rest : List (Simulation StillWorld × Act)) :
    trail ⟨0, 0⟩ ((ready 1, .turn ⟨0, 0⟩) :: (waiting, .tick) ::
      (waiting.act .tick, .turn ⟨0, 0⟩) ::
        ((waiting.act .tick).act (.turn ⟨0, 0⟩), .remove ⟨0, 0⟩) :: rest) =
      firstTurn 1 ++ secondTurn := by
  obtain ⟨-, ⟨-, -, -, hlaunched⟩, -⟩ := launch_facts
  obtain ⟨-, ⟨hticked, hturned, hremoved⟩, -⟩ := tick_facts
  have htick : waiting.instants ⟨0, 0⟩ .tick = [] := rfl
  rw [trail, if_pos hlaunched, trail, if_pos hticked, trail_last _ hturned hremoved, htick,
    List.nil_append, firstTurn, secondTurn]

/-- Function 0 waits, and calls another function with operands of its own. Script 1 has its slot
all the time, and in the end the result above it. -/
theorem frames_isolated_unless_taken_waiting :
    Level.Reachable Level.Fresh (fun _ => True) idle.level ∧
    idle.level.config.stackCapacity ≤ 2 ^ 32 ∧
    ∃ earlier later past call inner future,
      Occasion.moments idle.level [occasion (.launch { script := 1 }), occasion .tick] =
        earlier ++ later ∧
      trail ⟨0, 0⟩ later = past ++ call :: (inner ++ future) ∧
      call.machine.Calls call.ctx 0 ⟨0, 0, true, 0, 5⟩ false 4 ∧
      call.next.inst.status ≠ .pleaseRemove ∧
      (∀ x ∈ inner, waitingCall.Lasts x) ∧
      inner.map (fun x => x.machine.opcode? x.ctx) =
        [some (.delay .bytes), some (.pushBytes .two), some (.call false), some (.pushVar .script),
          some .returnVal, some .returnVal] ∧
      (∀ x ∈ inner, x.here.slots.extract 0 1 = #[.value 77]) ∧
      ∃ x ∈ inner, x.machine.Returns x.ctx 5 ∧
        x.after = ⟨4, .script, none, #[.value 77, .value 5]⟩ := by
  obtain ⟨-, -, hlength, hcall, hdelay⟩ := launch_facts
  obtain ⟨-, -, hlength', hlasts, hopcodes, hback⟩ := tick_facts
  obtain ⟨x₀, call, x₂, hfirst⟩ := List.length_eq_three.mp hlength
  rw [hfirst] at hcall hdelay
  obtain ⟨hcalls, hfunction, hrun, hactivation, hslots⟩ := hcall call rfl
  obtain ⟨hop, hlasts₂⟩ := hdelay x₂ rfl
  obtain ⟨rest, hm⟩ := moments_one
  have hidle : Level.Reachable Level.Fresh (fun _ => True) idle.level :=
    .origin (.start program 1 .standard)
  have hcapacity : idle.level.config.stackCapacity ≤ 2 ^ 32 := by decide
  have htrail := trail_one rest
  have hsplit (xs : List (Instant StillWorld)) :
      [x₀, call, x₂] ++ xs = [x₀] ++ call :: ((x₂ :: xs.take 5) ++ xs.drop 5) := by simp
  rw [hfirst, hsplit] at htrail
  have hcalls' := calls_of_instruction? hcalls hfunction
  have hrun' : call.next.inst.status ≠ .pleaseRemove := by
    rw [hrun]
    simp
  have hinner : ∀ x ∈ x₂ :: secondTurn.take 5, waitingCall.Lasts x := by
    intro x hx
    rcases List.mem_cons.mp hx with rfl | hx
    · exact hlasts₂
    · exact hlasts x hx
  obtain ⟨-, hall⟩ :=
    Occasion.frames_isolated_unless_taken hidle hcapacity hm htrail hcalls' hrun'
  rw [hactivation, hslots] at hall
  have hisolated := hall hinner
  obtain ⟨x, hx⟩ : ∃ x, secondTurn[4]? = some x :=
    ⟨_, List.getElem?_eq_getElem (by omega : 4 < secondTurn.length)⟩
  obtain ⟨hret, htop, hframe, hthis⟩ := hback x hx
  have hmem : x ∈ x₂ :: secondTurn.take 5 := by
    refine List.mem_cons_of_mem _ (List.mem_of_getElem? (i := 4) ?_)
    rw [List.getElem?_take_of_lt (by omega), hx]
  have hreturns : x.machine.Returns x.ctx 5 := .inr ⟨hret, htop⟩
  refine ⟨hidle, hcapacity, _, _, [x₀], call, x₂ :: secondTurn.take 5, secondTurn.drop 5, hm,
    htrail, hcalls', hrun', hinner, ?_, fun y hy => (hisolated y hy).1, x, hmem, hreturns, ?_⟩
  · rw [List.map_cons, hopcodes, hop]
  · exact (hisolated x hmem).2.2.1 5 ⟨hframe, hthis⟩ hreturns

theorem exists_of_length_six {α : Type} {xs : List α} (h : xs.length = 6) :
    ∃ a b c d e f, xs = [a, b, c, d, e, f] := by
  match xs, h with
  | [a, b, c, d, e, f], _ => exact ⟨a, b, c, d, e, f, rfl⟩

theorem overreach_facts :
    ((idle.start { script := 2 }).2.level.pending = [] ∧
      (idle.start { script := 2 }).2.level.ready = [⟨0, 0⟩] ∧
      (ready 2).visitActs ⟨0, 0⟩ = [.turn ⟨0, 0⟩, .remove ⟨0, 0⟩]) ∧
    ((((ready 2).act (.turn ⟨0, 0⟩)).level.instance? ⟨0, 0⟩).isSome = true ∧
      ((((ready 2).act (.turn ⟨0, 0⟩)).act (.remove ⟨0, 0⟩)).level.instance? ⟨0, 0⟩).isSome =
        false) ∧
    ((firstTurn 2).length = 6 ∧
      (∀ x ∈ (firstTurn 2)[1]?, instruction? x = some (some (.call false), 2, 20) ∧
        x.ctx.program.function? 2 = some ⟨0, 0, true, 0, 21⟩ ∧ x.next.inst.status = .running ∧
        x.machine.activation x.ctx 2 ⟨0, 0, true, 0, 21⟩ false 20 = overCall) ∧
      (∀ x ∈ (firstTurn 2).extract 2 5,
        x.here.slots[overCall.height]? = some (.record overCall.record)) ∧
      ∀ x ∈ (firstTurn 2)[3]?, x.machine.opcode? x.ctx = some (.pushVar .script) ∧
        x.ctx.base = 0 ∧ (x.next.withLower #[.value 78]).stack[3]? = some (.value 77) ∧
        ((x.machine.withLower #[.value 78]).step x.ctx).stack[3]? = some (.value 78) ∧
        ((x.machine.withLower #[.value 78]).step x.ctx).inst.status = .running ∧
        x.next.inst.status = .running) := by
  decide +kernel

/-- **A function reads a slot of its caller.** Function 2 calls function 1 without operands. The
call takes the record of function 2 and the slot of script 2 for the two arguments, so that the
first variable of function 1 is the slot of script 2, which lies under the frame of function 2. -/
theorem variable_of_caller :
    Level.Reachable Level.Fresh (fun _ => True) idle.level ∧
    idle.level.config.stackCapacity ≤ 2 ^ 32 ∧
    ∃ earlier later past call inner future,
      Occasion.moments idle.level [occasion (.launch { script := 2 })] = earlier ++ later ∧
      trail ⟨0, 0⟩ later = past ++ call :: (inner ++ future) ∧
      call.machine.Calls call.ctx 2 ⟨0, 0, true, 0, 21⟩ false 20 ∧
      call.machine.activation call.ctx 2 ⟨0, 0, true, 0, 21⟩ false 20 = overCall ∧
      call.next.inst.status ≠ .pleaseRemove ∧
      (∀ x ∈ inner, x.here.slots[overCall.height]? = some (.record overCall.record)) ∧
      ∃ x ∈ inner, x.next.inst.status = .running ∧
        ¬ (x.machine.Isolated x.ctx overCall.base.toNat ∨
        x.machine.opcode? x.ctx = some .restart ∨
        x.machine.Doomed x.ctx overCall.base.toNat) := by
  obtain ⟨⟨hpending, hready, hvisit⟩, ⟨hturned, hremoved⟩, hlength, hcall, hrecord, hread⟩ :=
    overreach_facts
  obtain ⟨x₀, call, x₂, x, x₄, x₅, hfirst⟩ := exists_of_length_six hlength
  have htrail := fun ms => trail_last ms hturned hremoved
  rw [← firstTurn, hfirst] at htrail
  rw [hfirst] at hcall hrecord hread
  obtain ⟨hcalls, hfunction, hrun, hactivation⟩ := hcall call rfl
  obtain ⟨hop, hbase, hkept, hother, hgoes, hnext⟩ := hread x rfl
  have hacts := Operation.acts_launch (s := idle) rfl hpending hready
  rw [ready] at hvisit
  rw [hvisit] at hacts
  have hm : Occasion.moments idle.level [occasion (.launch { script := 2 })] = _ ++ [] :=
    congrArg (· ++ []) (moments_launch hacts)
  rw [List.append_nil] at hm
  refine ⟨.origin (.start program 1 .standard), by decide, _, _, [x₀], call, [x₂, x, x₄], [x₅], hm,
    htrail _, calls_of_instruction? hcalls hfunction, hactivation, by rw [hrun]; simp, hrecord, x,
    by simp, hnext, ?_⟩
  have hsize : (#[.value 78] : Array Slot).size = x.ctx.base + overCall.base.toNat := by
    rw [hbase]
    rfl
  rintro (hisolated | hrestart | hdoomed)
  · have hstep := congrArg (·.stack[3]?) (hisolated _ hsize)
    cases hother.symm.trans (hstep.trans hkept)
  · rw [hop] at hrestart
    cases hrestart
  · obtain ⟨m', hstatus, hend⟩ := hdoomed
    obtain ⟨_, _, hstep⟩ := hend _ hsize
    rw [hstep] at hgoes
    cases hstatus.symm.trans hgoes

end Overreach

end LevelScript
