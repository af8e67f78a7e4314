import LevelScript.Proofs.Bytes.Codec
import LevelScript.Proofs.World.Recorded
import LevelScript.Snapshot.Bytes

/-!
# Snapshots lose nothing

A level that was saved and restored goes on as the level itself does. What a snapshot leaves out
is the same in all levels at rest, or follows from the program.

* `Snapshot.ofBytes_toBytes`: a snapshot is read back from its bytes.
* `Level.Carried`: what a snapshot leaves out is as it would be restored.
* `Level.restored_plays_alike`: after saving and restoring, all operations give the same.
-/

namespace LevelScript

/-! ## Bytes of a snapshot -/

namespace Codec

theorem lawful_actor : actor.Lawful := (lawful_word.pair lawful_word).convert fun _ => rfl

theorem lawful_line : line.Lawful := lawful_word.convert fun _ => rfl

theorem lawful_side : side.Lawful :=
  lawful_enumeration (fun a => by cases a <;> simp) (by decide)

theorem lawful_status : status.Lawful := by
  refine lawful_cases 10 fun st => ?_
  cases st with
  | running => exact readsCase_plain (n := 0) (by decide) rfl
  | suspended => exact readsCase_plain (n := 1) (by decide) rfl
  | delayed ticks => exact readsCase_part lawful_word (n := 2) (by decide) rfl ticks
  | tagWait tag => exact readsCase_part lawful_int (n := 3) (by decide) rfl tag
  | polyWait id => exact readsCase_part lawful_int (n := 4) (by decide) rfl id
  | scriptWaitPre script => exact readsCase_part lawful_int (n := 5) (by decide) rfl script
  | scriptWait script => exact readsCase_part lawful_int (n := 6) (by decide) rfl script
  | pleaseRemove => exact readsCase_plain (n := 7) (by decide) rfl
  | divideByZero => exact readsCase_plain (n := 8) (by decide) rfl
  | modulusByZero => exact readsCase_plain (n := 9) (by decide) rfl

theorem lawful_frame : frame.Lawful := by
  refine lawful_cases 2 fun f => ?_
  cases f with
  | script => exact readsCase_plain (n := 0) (by decide) rfl
  | stack base => exact readsCase_part lawful_word (n := 1) (by decide) rfl base

theorem lawful_returnRecord : returnRecord.Lawful :=
  (lawful_word.pair (lawful_frame.pair (lawful_word.option.pair lawful_bool))).convert fun _ => rfl

theorem lawful_slot : slot.Lawful := by
  refine lawful_cases 2 fun s => ?_
  cases s with
  | value v => exact readsCase_part lawful_int (n := 0) (by decide) rfl v
  | record r => exact readsCase_part lawful_returnRecord (n := 1) (by decide) rfl r

theorem lawful_fingerprint : fingerprint.Lawful :=
  (lawful_word.pair (lawful_block (by decide))).convert fun _ => rfl

theorem lawful_savedInstance : savedInstance.Lawful :=
  Lawful.convert (lawful_int.pair <| lawful_word.pair <| lawful_status.pair <|
    lawful_int.array.pair <| lawful_actor.option.pair <| lawful_line.option.pair <|
    lawful_side.pair <| lawful_slot.array.pair <| lawful_frame.pair <| lawful_word.option.pair <|
    lawful_text.pair <| lawful_word.option.pair <| lawful_int.pair <|
    lawful_long.pair lawful_bool) fun _ => rfl

theorem lawful_snapshot : snapshot.Lawful :=
  Lawful.convert (lawful_int.pair <| lawful_fingerprint.pair <| lawful_int.array.pair <|
    lawful_int.array.array.pair <| lawful_savedInstance.list.pair lawful_long) fun _ => rfl

end Codec

/-- A snapshot is read back from its bytes. -/
theorem Snapshot.ofBytes_toBytes {s : Snapshot} (h : s.toBytes.length < 2 ^ 64) :
    ofBytes s.toBytes = .ok s := by
  have hdecode := Codec.lawful_snapshot.decode_encode s [] h
  rw [List.append_nil] at hdecode
  rw [ofBytes, toBytes, hdecode]

/-! ## Instances of the program's scripts -/

namespace Level

variable {program : Program} {config : Config} {l l' : Level}

theorem Runs.congr {i j : Instance} (h : Runs program i) (hnumber : j.number = i.number)
    (htag : j.typeTag = i.typeTag) (hentry : j.entry = i.entry) : Runs program j := by
  obtain ⟨script, hscript, htag', hentry'⟩ := h
  exact ⟨script, hnumber ▸ hscript, htag.trans htag', hentry.trans hentry'⟩

/-- All instances are of scripts of the program. -/
def AllRun (program : Program) (l : Level) : Prop :=
  ∀ h i, l.instance? h = some i → Runs program i

end Level

namespace Simulation

variable {ω : Type} [Host ω] {s : Simulation ω} {program : Program}

/-- No act makes an instance one of something else. -/
theorem allRun_act (hl : s.level.Sound) (hp : s.level.program = program)
    (ha : s.level.AllRun program) (a : Act) : (s.act a).level.AllRun program := by
  intro h j hj
  rcases (step_act s a).origin hl hj with ⟨i, hi, hfate⟩ | ⟨-, hnew, -⟩
  · obtain ⟨hnumber, htag, hentry⟩ := hfate.script
    exact (ha h i hi).congr hnumber htag hentry
  · obtain ⟨script, _, _, _, _, _, hscript, rfl⟩ := hnew
    exact ⟨script, hp ▸ hscript, rfl, rfl⟩

theorem allRun_actAll (hl : s.level.Sound) (hp : s.level.program = program)
    (ha : s.level.AllRun program) (acts : List Act) : (s.actAll acts).level.AllRun program := by
  induction acts generalizing s with
  | nil => exact ha
  | cons a rest ih =>
    exact ih (sound_act hl a) ((stays_act s a).program.trans hp) (allRun_act hl hp ha a)

/-! ## Nothing is left to be removed -/

omit [Host ω] in
theorem reapPending_foldl_remove (handles : List Handle) (s : Simulation ω) :
    (handles.foldl remove s).level.reapPending = s.level.reapPending := by
  induction handles generalizing s with
  | nil => rfl
  | cons h rest ih =>
    rw [List.foldl_cons, ih, level_remove, Level.remove_keeps]

omit [Host ω] in
theorem reapPending_reap (s : Simulation ω) : s.reap.level.reapPending = false := by
  unfold reap
  split
  · rw [reapPending_foldl_remove]
    rfl
  · rename_i h
    simpa using h

theorem reapPending_settle (left : Nat) (s : Simulation ω) :
    (s.settle left).2.level.reapPending = false := by
  fun_induction settle left s with
  | case1 left s r rest hp _ ih => exact ih
  | case2 left s hp hr => exact reapPending_reap s
  | case3 s hp h rest hr _ ih => exact ih
  | case4 s hp h rest hr left ih => exact ih

end Simulation

/-- The operation ends no instance from outside, other than by a request. -/
def Operation.Gentle : Operation → Prop
  | setStatus _ status => status.isTerminal = false
  | _ => True

theorem Operation.reapPending_run {ω : Type} [Host ω] {s : Simulation ω}
    (h : s.level.reapPending = false) {op : Operation} (hop : op.Gentle) :
    (op.run s).2.level.reapPending = false := by
  refine op.run_of_settled (P := fun s => s.level.reapPending = false)
    Simulation.reapPending_settle (fun _ _ ht => ht) (fun _ ht => ht) h fun hsettles a ha => ?_
  cases op with
  | putFirst | putLast =>
    obtain ⟨_, rfl⟩ := ha
    exact h
  | setStatus script status =>
    cases ha
    have hlevel : (s.act (.setStatus script status)).level =
        (s.level.setStatus script status).2 := rfl
    have hstatus : status.isTerminal = false := hop
    rw [hlevel]
    rcases s.level.setStatus_eq script status with hsame | ⟨_, _, -, -, -, hset⟩
    · rw [hsame]
      exact h
    · rw [hset]
      simp [h, hstatus]
  | setVar | setElement | terminateAll =>
    cases ha
    exact h
  | _ => cases hsettles

/-! ## Saving and restoring -/

/-- The name of an instance that a saved level still knows. -/
def Which.Lasting : Which → Prop
  | handle _ => False
  | _ => True

/-- The operation names instances by their scripts or their places only. -/
def Operation.Lasting : Operation → Prop
  | putFirst which => which.Lasting
  | putLast which => which.Lasting
  | _ => True

theorem Operation.Lasting.shared {ω₁ ω₂ : Type} (k : Link ω₁ ω₂) {op : Operation}
    (h : op.Lasting) : op.Shared k := by
  have hwhich : ∀ which : Which, which.Lasting → which.Shared k := by
    intro which hw
    cases which with
    | handle h => exact absurd hw id
    | script n => trivial
    | place index => trivial
  cases op with
  | putFirst which => exact hwhich which h
  | putLast which => exact hwhich which h
  | _ => trivial

namespace Level

/-- What a snapshot leaves out is as it would be restored. -/
structure Carried (program : Program) (config : Config) (l : Level) : Prop where
  atRest : l.AtRest
  reapPending : l.reapPending = false
  allRun : l.AllRun program
  program : l.program = program
  config : l.config = config

variable {program : Program} {map : Int32} {config : Config} {l l' : Level}

theorem carried_start (program : Program) (map : Int32) (config : Config) :
    (start program map config).Carried program config where
  atRest := atRest_start program map config
  reapPending := rfl
  allRun h i hi := by
    have hmem := (Roster.mem_entries_iff Roster.sound_empty).mpr hi
    exact absurd hmem List.not_mem_nil
  program := rfl
  config := rfl

theorem Carried.run {ω : Type} [Host ω] {s : Simulation ω} (h : s.level.Carried program config)
    {op : Operation} (hop : op.Gentle) : (op.run s).2.level.Carried program config := by
  have hstays := Simulation.stays_actAll s (op.acts s)
  have hallRun := Simulation.allRun_actAll h.atRest.sound h.program h.allRun (op.acts s)
  rw [← op.run_eq_acts] at hstays hallRun
  exact ⟨h.atRest.run op, op.reapPending_run h.reapPending hop, hallRun,
    hstays.program.trans h.program, hstays.config.trans h.config⟩

theorem carried_of_reachable
    (h : Reachable (· = start program map config) Operation.Gentle l) :
    l.Carried program config := by
  induction h with
  | origin h => exact h ▸ carried_start program map config
  | run _ hop ih => exact ih.run hop

/-- A restored instance is the one that was saved. -/
theorem Restored.eq {i j : Instance} (h : Restored program i j) (hi : Runs program i) : j = i := by
  obtain ⟨script, hscript, rfl⟩ := h
  obtain ⟨script', hscript', htag, hentry⟩ := hi
  obtain rfl : script = script' := Option.some.inj (hscript.symm.trans hscript')
  rw [← htag, ← hentry]

/-- A level and what was restored of it are alike. -/
theorem beside_restore {ω₁ ω₂ : Type} {W : ω₁ → ω₂ → Prop} (hl : l.Carried program config)
    (h : restore program l.snapshot config = .ok l') {w₁ : ω₁} {w₂ : ω₂} (hw : W w₁ w₂)
    (session : Session) (j₁ j₂ : Journal) :
    ∃ ps, Simulation.Beside (.same W program config False) ps ⟨l, session, w₁, j₁⟩
      ⟨l', session, w₂, j₂⟩ := by
  obtain ⟨ps, hpaired, hrestored⟩ := paired_restore hl.atRest.sound h
  have hsound := sound_restore h
  obtain ⟨-, memory, instances, hmemory, -, hbase⟩ := restore_eq_ok h
  rw [foldl_addRestored_eq] at hbase
  have hmemory' : memory = l.memory := by
    unfold Snapshot.memory? at hmemory
    split at hmemory
    · split at hmemory
      · exact (Option.some.inj hmemory).symm
      · simp at hmemory
    · simp at hmemory
  have hmatched : Matched False Eq ps l l' :=
    { hpaired with
      sound₁ := hl.atRest.sound
      sound₂ := hsound
      alike := fun p hp => by
        have hmem : p.1 ∈ l.roster.entries := by
          rw [hpaired.left]
          exact List.mem_map_of_mem hp
        have hruns := hl.allRun _ _ ((Roster.mem_entries_iff hl.atRest.sound.roster).mp hmem)
        exact Coupling.instance_alike_eq_iff.mpr ((hrestored p hp).eq hruns).symm
      cells := False.elim
      handles := False.elim }
  refine ⟨ps, ?_, rfl, hw⟩
  exact
    { matched := hmatched
      program₁ := hl.program
      program₂ := by rw [hbase]; rfl
      config₁ := hl.config
      config₂ := by rw [hbase]; rfl
      map := by rw [hbase]; rfl
      memory := by rw [hbase]; exact hmemory'
      stack₁ := hl.atRest.stack
      stack₂ := by rw [hbase]; rfl
      tick := by rw [hbase]; rfl
      pending := by rw [hbase]; exact hl.atRest.quiet.1.symm
      reapPending := by rw [hbase]; exact hl.reapPending.symm
      ready := by rw [hbase, hl.atRest.quiet.2]; exact .nil
      nodup := by rw [hl.atRest.quiet.2]; exact List.nodup_nil }

/-- A level that was saved, read back and restored goes on as the level itself does: all
operations tell the same, ask the same of hosts that answer alike, and leave the same session,
the same memory and the same instances in the same order. Bytes are counted in 64 bits, and so
are ticks. -/
theorem restored_plays_alike {snapshot : Snapshot}
    (hreach : Reachable (· = start program map config) Operation.Gentle l)
    (hsize : l.snapshot.toBytes.length < 2 ^ 64)
    (hread : Snapshot.ofBytes l.snapshot.toBytes = .ok snapshot)
    (hrestore : restore program snapshot config = .ok l')
    {ω₁ ω₂ : Type} [Host ω₁] [Host ω₂] {W : ω₁ → ω₂ → Prop} (hosts : Host.Alike W)
    {w₁ : ω₁} {w₂ : ω₂} (hw : W w₁ w₂) (session : Session) (j₁ j₂ : Journal)
    {ops : List Operation} (hops : ∀ op ∈ ops, op.Lasting)
    (hticks : l.tick.toNat + ops.count .tick < 2 ^ 64) :
    let r₁ := Simulation.play ⟨l, session, (⟨w₁, []⟩ : Recorded ω₁), j₁⟩ ops
    let r₂ := Simulation.play ⟨l', session, (⟨w₂, []⟩ : Recorded ω₂), j₂⟩ ops
    r₂.1 = r₁.1 ∧ r₂.2.world.calls = r₁.2.world.calls ∧ r₂.2.session = r₁.2.session ∧
      r₂.2.level.memory = r₁.2.level.memory ∧ r₂.2.level.instances = r₁.2.level.instances := by
  intro r₁ r₂
  have hcarried := carried_of_reachable hreach
  obtain rfl : snapshot = l.snapshot := by
    rw [Snapshot.ofBytes_toBytes hsize] at hread
    exact (Except.ok.inj hread).symm
  have hboth : Recorded.Both W ⟨w₁, []⟩ ⟨w₂, []⟩ := ⟨hw, rfl⟩
  obtain ⟨ps, hbeside⟩ := beside_restore hcarried hrestore hboth session j₁ j₂
  have hfair := Link.fair_same (Recorded.alike_both hosts) program config False
  obtain ⟨htold, qs, hbeside'⟩ := Simulation.parallel_play hfair hbeside hcarried.atRest
    (fun op hop => (hops op hop).shared _) (.inr hticks) (Simulation.playWithin_true _ ops)
  exact ⟨htold, hbeside'.world.2, hbeside'.session, hbeside'.level.memory,
    hbeside'.instances_eq rfl⟩

end Level

namespace Asleep

open Simulation

/-- Script 1 waits for three ticks, and then ends. -/
def program : Program :=
  { (default : Program) with
    image := #[56, 0, 0, 0, 3, 0, 0, 0, 1, 0, 0, 0]
    layout := .enhanced .wide
    scripts := [{ (default : Script) with number := 1 }] }

def idle : Simulation StillWorld := ⟨.start program 1 .standard, .empty, default, default⟩

/-- Script 1 was launched, and waits. -/
def asleep : Simulation StillWorld :=
  ((idle.start { script := 1 }).2.dropReady.visit ⟨0, 0⟩).reap

theorem facts :
    (idle.start { script := 1 }).2.level.pending = [] ∧
    (idle.start { script := 1 }).2.level.ready = [⟨0, 0⟩] ∧
    ((idle.start { script := 1 }).2.dropReady.visit ⟨0, 0⟩).level.pending = [] ∧
    ((idle.start { script := 1 }).2.dropReady.visit ⟨0, 0⟩).level.ready = [] ∧
    asleep.level.snapshot.toBytes.length < 2 ^ 64 ∧
    (Level.restore program asleep.level.snapshot .standard).isOk = true ∧
    asleep.level.tick = 0 := by
  decide +kernel

theorem run_asleep : (Operation.run idle (.launch { script := 1 })).2 = asleep := by
  obtain ⟨hpending, hready, hpending', hready', -⟩ := facts
  exact Operation.run_launch rfl hpending hready hpending' hready'

/-- A level is saved and restored while its script waits; then a second instance is launched and
put first, and ticks pass until both have ended. -/
theorem restored_plays_alike_asleep :
    let ops : List Operation :=
      [.tick, .launch { script := 1, always := true }, .putFirst (.place 1), .tick, .tick, .tick,
        .tick]
    ∃ snapshot l', Snapshot.ofBytes asleep.level.snapshot.toBytes = .ok snapshot ∧
      Level.restore program snapshot .standard = .ok l' ∧
      let r₁ := Simulation.play
        ⟨asleep.level, .empty, (⟨default, []⟩ : Recorded StillWorld), default⟩ ops
      let r₂ := Simulation.play ⟨l', .empty, (⟨default, []⟩ : Recorded StillWorld), default⟩ ops
      r₂.1 = r₁.1 ∧ r₂.2.world.calls = r₁.2.world.calls ∧ r₂.2.session = r₁.2.session ∧
        r₂.2.level.memory = r₁.2.level.memory ∧
        r₂.2.level.instances = r₁.2.level.instances := by
  intro ops
  have hidle : Level.Reachable (· = Level.start program 1 .standard) Operation.Gentle
      idle.level := .origin rfl
  have hreach : Level.Reachable (· = Level.start program 1 .standard) Operation.Gentle
      asleep.level := run_asleep ▸ .run hidle trivial
  obtain ⟨-, -, -, -, hsize, hok, htick⟩ := facts
  have hticks : asleep.level.tick.toNat + ops.count .tick < 2 ^ 64 := by
    rw [htick]
    decide
  have hread := Snapshot.ofBytes_toBytes hsize
  have halike : Host.Alike (Eq : StillWorld → StillWorld → Prop) := by
    rintro c w _ rfl
    exact ⟨rfl, rfl⟩
  have hlasting : ∀ op ∈ ops, op.Lasting := by simp [ops, Operation.Lasting, Which.Lasting]
  cases hrestore : Level.restore program asleep.level.snapshot .standard with
  | error e =>
    rw [hrestore] at hok
    cases hok
  | ok l' =>
    exact ⟨_, l', hread, hrestore, Level.restored_plays_alike hreach hsize hread hrestore
      (W := Eq) halike rfl .empty default default hlasting hticks⟩

end Asleep

end LevelScript
