import LevelScript.Machine.Step

/-!
# Turns of an instance

An instance runs until it waits, ends, faults, or has executed as many instructions as one turn
allows. Its part of the operand stack is put onto the shared stack before, and taken back after;
an instance that ended leaves nothing.
-/

namespace LevelScript

namespace Machine

variable {ω : Type} [Host ω]

omit [Host ω] in
/-- Ends the instance and notes why. -/
def fail (m : Machine ω) (d : Diagnostic) : Machine ω :=
  { m with inst := { m.inst with status := .pleaseRemove }, journal := m.journal.note d }

omit [Host ω] in
/-- The machine with its instance at an offset. -/
def moveTo (m : Machine ω) (pc : UInt32) : Machine ω :=
  { m with inst := { m.inst with pc := pc } }

/-- One step; a fault ends the instance at the instruction that caused it. A run in place would
leave `pc` behind the bytes that were read by then. Here it is moved back to the instruction, and
nothing reads it afterwards, for the instance has ended. -/
def step (ctx : Context) (m : Machine ω) : Machine ω :=
  let number := m.inst.number
  let pc := m.inst.pc
  match Exec.step ctx m with
  | .ok _ m => m
  | .error f m => (m.moveTo pc).fail (.aborted number pc f)

/-- Steps while the instance runs, at most `fuel` of them; tells how many are left. -/
def loop (ctx : Context) : Nat → Machine ω → Nat × Machine ω
  | 0, m =>
    if m.inst.status = .running then
      (0, m.fail (.runaway m.inst.number ctx.config.instructionLimit))
    else (0, m)
  | fuel + 1, m =>
    if m.inst.status = .running then loop ctx fuel (m.step ctx) else (fuel + 1, m)

omit [Host ω] in
/-- A zero divisor ends the instance. -/
def endDivision (m : Machine ω) : Machine ω :=
  match m.inst.status with
  | .divideByZero => m.fail (.divisionByZero m.inst.number)
  | .modulusByZero => m.fail (.modulusByZero m.inst.number)
  | _ => m

omit [Host ω] in
/-- Takes the instance's part off the shared stack; an instance that ended keeps none of it. -/
def spill (base : Nat) (m : Machine ω) : Machine ω :=
  let segment := if m.inst.status = .pleaseRemove then #[] else m.stack.extract base m.stack.size
  { m with inst := { m.inst with segment := segment }, stack := m.stack.shrink base }

omit [Host ω] in
/-- Puts the instance's part onto the shared stack. -/
def resume (m : Machine ω) : Machine ω :=
  { m with inst := { m.inst with segment := #[] }, stack := m.stack ++ m.inst.segment }

/-- One turn of the machine's instance; tells how many instructions it executed. -/
def run (program : Program) (config : Config) (m : Machine ω) : Nat × Machine ω :=
  let base := m.stack.size
  if config.stackCapacity < base + m.inst.segment.size then
    (0, { m with inst := { m.inst with segment := #[] } }.fail
      (.cannotResume m.inst.number (.stackOverflow config.stackCapacity)))
  else
    let limit := config.instructionLimit.toNat
    let (left, m) := loop ⟨program, config, base⟩ limit m.resume
    (limit - left, m.endDivision.spill base)

end Machine

end LevelScript
