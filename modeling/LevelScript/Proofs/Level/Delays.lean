import LevelScript.Proofs.Instruction.Longer
import LevelScript.Proofs.Level.FirstTurns
import LevelScript.Proofs.Machine.Stops

/-!
# Delays

An instance that executes a delay stops at once, and waits for as many ticks as the instruction
asks for. In each of them it takes one turn, which makes the wait shorter by one; the last of them
lets it run on from where it stopped.

* `Machine.loop_delay`: the instruction.
* `Simulation.Disturbs`: what ends a delay from outside.
* `Simulation.tick_of_delayed`: one tick makes the wait shorter by one.
* `Occasion.delay_exact`: the ticks of any run of operations.
-/

namespace LevelScript

/-! ## The instruction -/

namespace Machine

variable {ω : Type} {ctx : Context} {m : Machine ω} {inst : Instruction} {source : Source}
  {v : Int32}

/-- The value that an instruction takes from its source, if it is there. -/
def argument? (m : Machine ω) (ctx : Context) (inst : Instruction) : Source → Option Int32
  | .stack => m.top? ctx
  | _ => inst.operands[0]?

/-- The machine after a delay of no ticks. -/
def afterDelay (m : Machine ω) (inst : Instruction) (source : Source) : Machine ω :=
  { m with
    inst := { m.inst with pc := inst.next }
    stack := match source with
      | .stack => m.stack.pop
      | _ => m.stack
    journal := m.journal.note (.executing m.inst.number m.inst.pc (.delay source)) }

/-- The machine with its instance waiting for some ticks. -/
def waiting (m : Machine ω) (ticks : UInt32) : Machine ω :=
  { m with inst := { m.inst with status := .delayed ticks } }

variable [Host ω]

theorem stepWhole_delay
    (hinst : Instruction.decode ctx.program.codeWidth ctx.program.image m.inst.pc = .ok inst)
    (hop : inst.opcode = some (.delay source)) (hv : m.argument? ctx inst source = some v) :
    Exec.stepWhole ctx m = Exec.delay v ctx (m.afterDelay inst source) := by
  obtain ⟨pc, hnumber, -, hopcode, hread⟩ := Instruction.decode_eq_ok_iff.mp hinst
  rewrite [hop] at hopcode
  have hlayout : Instruction.layoutOf inst.number = (Opcode.delay source).layout := by
    simp only [Instruction.layoutOf, ← hopcode, Option.map_some, Option.getD_some]
  rewrite [hlayout] at hread
  have hvalue : ∀ w, inst.operands[0]? = some w → inst.operands.getD 0 0 = w := by
    intro w hw
    rw [Array.getD_eq_getD_getElem?, hw]
    rfl
  rewrite [Exec.stepWhole_of_ok hnumber]
  unfold Exec.obey
  simp only [← hopcode]
  rewrite [Exec.bind_ok (x := Exec.note _) rfl, Exec.executeAfter_of_whole (by rw [hread]), hread]
  cases source with
  | stack =>
    have htop : top? (moveTo { m with journal := m.journal.note (.executing m.inst.number
        m.inst.pc (.delay .stack)) } inst.next) ctx = some v := hv
    exact Exec.bind_ok (Exec.pop_of_top? htop) _
  | words =>
    rewrite [← hvalue v hv]
    rfl
  | bytes =>
    rewrite [← hvalue v hv]
    rfl

/-- A delay of some ticks stops the instance at once; one of no ticks does not stop it. -/
theorem loop_delay (hrun : m.inst.status = .running)
    (hinst : Instruction.decode ctx.program.codeWidth ctx.program.image m.inst.pc = .ok inst)
    (hop : inst.opcode = some (.delay source)) (hv : m.argument? ctx inst source = some v)
    (fuel : Nat) :
    m.loop ctx (fuel + 1) =
      if 0 < v then (fuel, (m.afterDelay inst source).waiting v.toUInt32)
      else (m.afterDelay inst source).loop ctx fuel := by
  rw [loop, if_pos hrun, step_eq, stepWhole_delay hinst hop hv]
  by_cases hpos : 0 < v
  · have hdelay : Exec.delay v ctx (m.afterDelay inst source) =
        .ok () ((m.afterDelay inst source).waiting v.toUInt32) := by
      rw [Exec.delay, if_pos hpos]
      rfl
    rw [hdelay, if_pos hpos]
    exact loop_of_stopped (by simp [waiting]) fuel
  · have hdelay : Exec.delay v ctx (m.afterDelay inst source) =
        .ok () (m.afterDelay inst source) := by
      rw [Exec.delay, if_neg hpos]
      rfl
    rw [hdelay, if_neg hpos]

end Machine

/-! ## Disturbances -/

namespace Simulation

variable {ω : Type} [Host ω] {s : Simulation ω} {a : Act} {acts : List Act} {h : Handle}
  {i j : Instance} {n : UInt32} {sets : Status → Prop}

omit [Host ω] in
/-- The act drops all instances, or it sets the status of a script whose tracked instance is the
one under the handle. -/
def Disturbs (s : Simulation ω) (h : Handle) (script : Int32) (a : Act) : Prop :=
  a = .terminateAll ∨ s.level.find? script = some h ∧ ∃ st, a.SetsStatus s.level script st

/-- None of the acts disturbs the instance before it takes a turn. -/
def CalmUntilTurn (s : Simulation ω) (h : Handle) (script : Int32) (acts : List Act) : Prop :=
  ∀ xs a ys, acts = xs ++ a :: ys → .turn h ∉ xs → ¬ (s.actAll xs).Disturbs h script a

theorem mem_moments {xs ys : List Act} (s : Simulation ω) (hacts : acts = xs ++ a :: ys) :
    (s.actAll xs, a) ∈ s.moments acts := by
  rw [hacts, moments_append]
  exact List.mem_append_right _ List.mem_cons_self

theorem exists_of_mem_moments {t : Simulation ω} (hm : (t, a) ∈ s.moments acts) :
    ∃ xs ys, acts = xs ++ a :: ys ∧ t = s.actAll xs := by
  induction acts generalizing s with
  | nil => cases hm
  | cons b rest ih =>
    rcases List.mem_cons.mp hm with heq | hm
    · obtain ⟨rfl, rfl⟩ := Prod.mk.inj heq
      exact ⟨[], rest, rfl, rfl⟩
    · obtain ⟨xs, ys, rfl, rfl⟩ := ih hm
      exact ⟨b :: xs, ys, rfl, rfl⟩

omit [Host ω] in
/-- Besides its turns, a delayed instance that is not disturbed stays as it is, or is put off. -/
theorem aside_of_delayed (hside : s.level.Aside a h i j) (hst : i.status = .delayed n)
    (hcalm : ¬ s.Disturbs h i.number a) :
    j = { i with lastTick := j.lastTick } ∧
      (j.lastTick = i.lastTick ∨ j.lastTick = s.level.tick) := by
  cases hside with
  | same => exact ⟨rfl, .inl rfl⟩
  | postponed => exact ⟨rfl, .inr rfl⟩
  | promoted wait => cases hst.symm.trans wait
  | woken wait => cases hst.symm.trans wait
  | resumed _ _ wait => cases hst.symm.trans wait
  | set tracked sets => exact absurd (.inr ⟨tracked, _, sets⟩) hcalm

/-- Along acts without a turn of its own, a delayed instance that is not disturbed stays as it
is. -/
theorem delayed_actAll (hl : s.level.Sound) (hproper : s.Proper sets acts)
    (hi : s.level.instance? h = some i) (hst : i.status = .delayed n)
    (hready : h ∉ s.level.ready) (hturn : .turn h ∉ acts)
    (hcalm : s.CalmUntilTurn h i.number acts) :
    ∃ last, (s.actAll acts).level.instance? h = some { i with lastTick := last } ∧
      (last = i.lastTick ∨ last = s.level.tick) ∧ h ∉ (s.actAll acts).level.ready ∧
      .remove h ∉ acts := by
  induction acts generalizing s i with
  | nil => exact ⟨i.lastTick, hi, .inl rfl, hready, List.not_mem_nil⟩
  | cons a rest ih =>
    rw [List.mem_cons, not_or] at hturn
    have hnow := hcalm [] a rest rfl List.not_mem_nil
    have hremove : a ≠ .remove h := by
      rintro rfl
      have hend := hproper.1.2 i hi
      rw [hst] at hend
      cases hend
    obtain ⟨j, hj, hside⟩ :=
      exists_aside hl hi (Ne.symm hturn.1) hremove fun hdrop => hnow (.inl hdrop)
    obtain ⟨heq, hlast⟩ := aside_of_delayed hside hst hnow
    rw [heq] at hj
    have hlater : (s.act a).CalmUntilTurn h i.number rest := by
      rintro xs b ys rfl hxs
      exact hcalm (a :: xs) b ys rfl (by simp [hturn.1, hxs])
    obtain ⟨last, hlast', hwhen, hready', hremove'⟩ :=
      ih (sound_act hl a) hproper.2 hj hst (not_ready_act hl hi hready a) hturn.2 hlater
    refine ⟨last, hlast', ?_, hready', by simp [Ne.symm hremove, hremove']⟩
    rw [(staysInTick_act s hproper.1.ne_tick).tick] at hwhen
    rcases hwhen with rfl | rfl
    · exact hlast
    · exact .inr rfl

/-! ## Turns of a delayed instance -/

/-- The next turn of the instance only makes its wait shorter. -/
def CountsDown (s : Simulation ω) (h : Handle) (i : Instance) : Prop :=
  ∃ n last, 1 < n ∧ s.level.instance? h = some { i with status := .delayed n, lastTick := last } ∧
    s.act (.turn h) =
      s.seat h { i with status := .delayed (n - 1), lastTick := s.level.tick }

/-- The next turn of the instance ends its wait, and lets it run from where it is. -/
def Resumes (s : Simulation ω) (h : Handle) (i : Instance) : Prop :=
  ∃ last, s.level.instance? h = some { i with status := .delayed 1, lastTick := last } ∧
    s.act (.turn h) =
      let r := s.dispatch { i with status := .running, lastTick := s.level.tick }
      r.2.seat h r.1

theorem turn_of_long (hi : s.level.instance? h = some i) (hst : i.status = .delayed n)
    (hn : 1 < n) : s.act (.turn h) =
      s.seat h { i with status := .delayed (n - 1), lastTick := s.level.tick } := by
  have hready : ¬ s.Ready i.status := by
    rw [hst]
    exact UInt32.not_le.mpr hn
  have hnext : s.nextStatus i.status = (.delayed (n - 1), s) := by
    rw [hst]
    show (if n ≤ 1 then Status.running else .delayed (n - 1), s) = _
    rw [if_neg (UInt32.not_le.mpr hn)]
  show s.turn h = _
  rw [turn_of_not_ready hi hready, hnext]

theorem countsDown_of_delayed (hi : s.level.instance? h = some i) (hst : i.status = .delayed n)
    (hn : 1 < n) : s.CountsDown h i :=
  ⟨n, i.lastTick, hn, by rw [hi, ← hst], turn_of_long hi hst hn⟩

theorem resumes_of_delayed (hi : s.level.instance? h = some i) (hst : i.status = .delayed 1) :
    s.Resumes h i := by
  refine ⟨i.lastTick, by rw [hi, ← hst], ?_⟩
  have hready : s.Ready i.status := by
    rw [hst]
    exact UInt32.le_refl 1
  show s.turn h = _
  rw [turn_of_ready hi hready, hst]
  rfl

theorem instance?_turn_of_long (hl : s.level.Sound) (hi : s.level.instance? h = some i)
    (hst : i.status = .delayed n) (hn : 1 < n) :
    (s.act (.turn h)).level.instance? h =
      some { i with status := .delayed (n - 1), lastTick := s.level.tick } := by
  rw [turn_of_long hi hst hn]
  show (s.level.roster.modify h _).instance? h = _
  rw [Roster.instance?_modify hl.roster, if_pos rfl, show s.level.roster.instance? h = _ from hi]
  rfl

/-! ## Ticks and other operations -/

/-- In a tick, an instance takes a turn while it is still delayed as before. -/
theorem turn_of_delayed (hl : s.level.AtRest) (hrole : s.level.isReplica = false)
    (hi : s.level.instance? h = some i) (hst : i.status = .delayed n)
    (hlast : i.lastTick ≠ s.level.tick + 1) (hcalm : s.CalmUntilTurn h i.number s.tickActs) :
    ∃ xs ys last, s.tickActs = .tick :: (xs ++ .turn h :: ys) ∧ .turn h ∉ xs ∧ .remove h ∉ xs ∧
      ((s.act .tick).actAll xs).level.instance? h = some { i with lastTick := last } ∧
      h ∉ ((s.act .tick).actAll xs).level.ready := by
  obtain ⟨xs, a, ys, hacts, ha, hturn, hremove⟩ := turn_or_remove hl hrole hi hlast
  have hready : h ∉ (s.act .tick).level.ready := by
    rw [show (s.act .tick).level.ready = s.level.ready from rfl, hl.quiet.2]
    exact List.not_mem_nil
  have hl' := sound_act hl.sound .tick
  have hproper : (s.act .tick).Proper (fun _ => True) (xs ++ a :: ys) := by
    have hpass := proper_passActs closed_true maxFirstTurns hl' hl.quiet (s.act .tick).dueHandles
    rw [tickActs, if_neg (by simp [hrole]), List.cons.injEq] at hacts
    rwa [hacts.2] at hpass
  obtain ⟨hproper', ha', -⟩ := (proper_append _ _).mp hproper
  have hcalm' : (s.act .tick).CalmUntilTurn h i.number xs := by
    rintro us b vs rfl hus
    refine hcalm (.tick :: us) b (vs ++ a :: ys) ?_ (by simp [hus])
    rw [hacts]
    simp
  obtain ⟨last, hi', -, hready', -⟩ :=
    delayed_actAll hl' hproper' hi hst hready hturn hcalm'
  rcases ha with rfl | rfl
  · exact ⟨xs, ys, last, hacts, hturn, hremove, hi', hready'⟩
  · have hend := ha'.2 _ hi'
    rw [show ({ i with lastTick := last } : Instance).status = .delayed n from hst] at hend
    cases hend

/-- A tick makes the wait of an instance that is not disturbed shorter by one; it has one turn. -/
theorem tick_of_delayed (hl : s.level.AtRest) (hrole : s.level.isReplica = false)
    (hi : s.level.instance? h = some i) (hst : i.status = .delayed n) (hn : 1 < n)
    (hlast : i.lastTick ≠ s.level.tick + 1)
    (hcalm : ∀ m ∈ s.moments s.tickActs, ¬ m.1.Disturbs h i.number m.2) :
    (∀ t, (t, .turn h) ∈ s.moments s.tickActs → t.CountsDown h i) ∧
      s.tick.level.instance? h =
        some { i with status := .delayed (n - 1), lastTick := s.tick.level.tick } := by
  have hcalm' : s.CalmUntilTurn h i.number s.tickActs := by
    intro xs a ys hacts _
    exact hcalm _ (mem_moments s hacts)
  obtain ⟨xs, ys, last, hacts, hxs, hremove, hi₁, hready₁⟩ :=
    turn_of_delayed hl hrole hi hst hlast hcalm'
  let t := (s.act .tick).actAll xs
  have hl₁ : t.level.Sound := sound_actAll (sound_act hl.sound .tick) xs
  have hcounts : t.CountsDown h { i with lastTick := last } := countsDown_of_delayed hi₁ hst hn
  have hi₂ := instance?_turn_of_long hl₁ hi₁ hst hn
  have hready₂ : h ∉ (t.act (.turn h)).level.ready := not_ready_act hl₁ hi₁ hready₁ _
  have hproper : (t.act (.turn h)).Proper (fun _ => True) ys := by
    have hpass := proper_passActs closed_true maxFirstTurns (sound_act hl.sound .tick) hl.quiet
      (s.act .tick).dueHandles
    rw [tickActs, if_neg (by simp [hrole]), List.cons.injEq] at hacts
    rw [hacts.2] at hpass
    exact ((proper_append _ _).mp hpass).2.2
  have hlater {us vs : List Act} (hys : ys = us ++ vs) :
      (t.act (.turn h)).CalmUntilTurn h i.number us := by
    rintro as b bs rfl -
    have heq : s.tickActs = .tick :: (xs ++ .turn h :: as) ++ b :: (bs ++ vs) := by
      rw [hacts, hys]
      simp
    have hmem := mem_moments s heq
    rw [actAll_cons, actAll_append] at hmem
    exact hcalm _ hmem
  -- A second turn would need that the instance was removed after the first.
  have hys : .turn h ∉ ys := by
    intro hmem
    obtain ⟨us, vs, rfl, hus⟩ := exists_first hmem
    obtain ⟨-, -, -, -, hkept⟩ :=
      delayed_actAll (sound_act hl₁ _) ((proper_append _ _).mp hproper).1
      hi₂ rfl hready₂ hus (hlater rfl)
    exact hkept (turn_once hl hi hacts hremove)
  constructor
  · intro t' hm
    obtain ⟨us, vs, heq, rfl⟩ := exists_of_mem_moments hm
    rw [hacts] at heq
    cases us with
    | nil => cases heq
    | cons b us =>
      rw [List.cons_append, List.cons.injEq] at heq
      obtain ⟨rfl, heq⟩ := heq
      obtain rfl : us = xs := by
        rcases List.append_eq_append_iff.mp heq with ⟨as, rfl, has⟩ | ⟨as, rfl, has⟩
        · cases as with
          | nil => rw [List.append_nil]
          | cons b as =>
            rw [List.cons_append, List.cons.injEq] at has
            exact absurd (has.2 ▸ by simp) hys
        · cases as with
          | nil => rw [List.append_nil]
          | cons b as =>
            rw [List.cons_append, List.cons.injEq] at has
            obtain ⟨rfl, -⟩ := has
            exact absurd (by simp) hxs
      exact hcounts
  · obtain ⟨last', hi₃, -⟩ := delayed_actAll (sound_act hl₁ _) hproper hi₂ rfl hready₂ hys
      (hlater (List.append_nil _).symm)
    have hend : (t.act (.turn h)).actAll ys = s.tick := by
      rw [← actAll_tickActs, hacts, actAll_cons, actAll_append, actAll_cons]
    rw [hend] at hi₃
    have hmark : last' = s.tick.level.tick := stamped_tick hl.sound hrole hl.quiet hi₃
    rw [hi₃, hmark]

end Simulation

/-- No other operation gives a delayed instance a turn, or changes its wait. -/
theorem Operation.run_of_delayed {ω : Type} [Host ω] {s : Simulation ω} {op : Operation}
    {h : Handle} {i : Instance} {n : UInt32} (hop : op ≠ .tick) (hl : s.level.AtRest)
    (hi : s.level.instance? h = some i) (hst : i.status = .delayed n)
    (hcalm : s.CalmUntilTurn h i.number (op.acts s)) :
    .turn h ∉ op.acts s ∧ (op.run s).2.level.tick = s.level.tick ∧
      ∃ last, (op.run s).2.level.instance? h = some { i with lastTick := last } ∧
        (last = i.lastTick ∨ last = s.level.tick) := by
  have hproper := op.proper_acts Simulation.closed_true hl hop op.sets_any
  have hready : h ∉ s.level.ready := by
    rw [hl.quiet.2]
    exact List.not_mem_nil
  have hturn : .turn h ∉ op.acts s := by
    intro hmem
    obtain ⟨xs, ys, hacts, hxs⟩ := Simulation.exists_first hmem
    obtain ⟨front, rest, rfl, hfirst⟩ := op.firstTurns_acts s hop xs h ys hacts
    rw [hacts, List.append_assoc] at hproper
    rw [List.mem_append, not_or] at hxs
    -- It would have to be the first of the new instances.
    obtain ⟨-, -, -, hready', -⟩ := Simulation.delayed_actAll hl.sound
      ((Simulation.proper_append _ _).mp hproper).1 hi hst hready hxs.1 fun us b vs heq hus =>
        hcalm us b (vs ++ (.takeReady :: .turn h :: ys)) (by rw [hacts, heq]; simp) hus
    exact hready' (hfirst ▸ List.mem_cons_self)
  obtain ⟨last, hi', hwhen, -⟩ :=
    Simulation.delayed_actAll hl.sound hproper hi hst hready hturn hcalm
  rw [op.run_eq_acts]
  exact ⟨hturn, Simulation.tick_of_proper hproper, last, hi', hwhen⟩

/-! ## Runs -/

namespace Occasion

variable {ω : Type} [Host ω] {l : Level} {h : Handle} {i : Instance} {n : UInt32}

omit [Host ω] in
/-- How many ticks go by. -/
def ticks (os : List (Occasion ω)) : Nat := os.countP fun o => o.op = .tick

/-- As long as fewer ticks go by than it waits for, a delayed instance that is not disturbed stays
as it is but for its wait. -/
theorem delayed_applyAll {os : List (Occasion ω)} (hl : l.AtRest) (hrole : l.isReplica = false)
    (hi : l.instance? h = some i) (hst : i.status = .delayed n) (hlast : i.lastTick ≠ l.tick + 1)
    (hfew : ticks os < n.toNat)
    (hcalm : ∀ m ∈ moments l os, ¬ m.1.Disturbs h i.number m.2) :
    (applyAll l os).AtRest ∧ (applyAll l os).isReplica = false ∧
    (∃ last, last ≠ (applyAll l os).tick + 1 ∧ (applyAll l os).instance? h =
      some { i with status := .delayed (.ofNat (n.toNat - ticks os)), lastTick := last }) ∧
    ∀ t, (t, .turn h) ∈ moments l os → t.CountsDown h i := by
  induction os generalizing l i n with
  | nil =>
    have hsame : UInt32.ofNat (n.toNat - ticks ([] : List (Occasion ω))) = n := UInt32.ofNat_toNat
    refine ⟨hl, hrole, ⟨i.lastTick, hlast, ?_⟩, fun t ht => absurd ht List.not_mem_nil⟩
    rw [hsame, ← hst]
    exact hi
  | cons o rest ih =>
    have hstays := (o.enter l).stays_actAll (o.op.acts (o.enter l))
    rw [← o.op.run_eq_acts] at hstays
    have hl' : (o.apply l).AtRest := hl.run (s := o.enter l) o.op
    have hrole' : (o.apply l).isReplica = false :=
      (Simulation.isReplica_congr hstays).trans hrole
    have hfirst : ∀ m ∈ (o.enter l).moments (o.op.acts (o.enter l)),
        ¬ m.1.Disturbs h i.number m.2 := fun m hm => hcalm m (List.mem_append_left _ hm)
    have hrest : ∀ m ∈ moments (o.apply l) rest, ¬ m.1.Disturbs h i.number m.2 :=
      fun m hm => hcalm m (List.mem_append_right _ hm)
    by_cases hop : o.op = .tick
    · have hcount : ticks (o :: rest) = ticks rest + 1 := List.countP_cons_of_pos (by simpa)
      rw [hcount] at hfew
      have hn : 1 < n := UInt32.lt_iff_toNat_lt.mpr (Nat.lt_of_le_of_lt (Nat.le_add_left _ _) hfew)
      have hsub : (n - 1).toNat = n.toNat - 1 := UInt32.toNat_sub_of_le n 1 (UInt32.le_of_lt hn)
      have happly : o.apply l = (o.enter l).tick.level := by rw [apply, hop]; rfl
      rw [hop] at hfirst
      obtain ⟨hturns, hi'⟩ :=
        Simulation.tick_of_delayed (s := o.enter l) hl hrole hi hst hn hlast hfirst
      rw [← happly] at hi'
      obtain ⟨hl'', hrole'', ⟨last, hlast', hi''⟩, hturns'⟩ :=
        ih hl' hrole' hi' rfl (Level.Recent.ne_succ (.inl rfl)) (by omega) hrest
      refine ⟨hl'', hrole'', ⟨last, hlast', ?_⟩, fun t ht => ?_⟩
      · rw [hcount, Nat.add_comm, ← Nat.sub_sub, ← hsub]
        exact hi''
      · rcases List.mem_append.mp ht with ht | ht
        · rw [hop] at ht
          exact hturns t ht
        · exact hturns' t ht
    · have hcount : ticks (o :: rest) = ticks rest := List.countP_cons_of_neg (by simpa)
      rw [hcount] at hfew ⊢
      obtain ⟨hnone, htick, last, hi', hwhen⟩ :=
        o.op.run_of_delayed (s := o.enter l) hop hl hi hst fun xs a ys hacts _ =>
          hfirst _ (Simulation.mem_moments (o.enter l) hacts)
      have htick' : (o.apply l).tick = l.tick := htick
      have hlast' : last ≠ (o.apply l).tick + 1 := by
        rw [htick']
        rcases hwhen with rfl | rfl
        · exact hlast
        · exact Level.Recent.ne_succ (.inl rfl)
      obtain ⟨hl'', hrole'', hi'', hturns'⟩ := ih hl' hrole' hi' hst hlast' hfew hrest
      refine ⟨hl'', hrole'', hi'', fun t ht => ?_⟩
      rcases List.mem_append.mp ht with ht | ht
      · obtain ⟨xs, ys, hacts, -⟩ := Simulation.exists_of_mem_moments ht
        exact absurd (by rw [hacts]; simp) hnone
      · exact hturns' t ht

/-- **Delays are exact.** Take any level that a game meets, an instance that is delayed for some
ticks, and operations with fewer ticks among them, none of which disturbs it. Then it is delayed
for the ticks that remain and is else as it was, but for the mark of its last turn, and none of
its turns executed anything. In the tick that follows the last of these, it takes a turn, and runs
from where it stopped. A delay of a positive number of ticks stops an instance at once, with that
wait; any other goes on with the next instruction. The counter of ticks must not overflow. -/
theorem delay_exact :
    (∀ {l : Level} {h : Handle} {i : Instance} {n : UInt32} {os : List (Occasion ω)}, l.Met →
      l.isReplica = false → l.tick + 1 ≠ 0 → l.instance? h = some i → i.status = .delayed n →
      ticks os < n.toNat → (∀ m ∈ moments l os, ¬ m.1.Disturbs h i.number m.2) →
      (∃ last, (applyAll l os).instance? h =
        some { i with status := .delayed (.ofNat (n.toNat - ticks os)), lastTick := last }) ∧
      (∀ t, (t, .turn h) ∈ moments l os → t.CountsDown h i) ∧
      ∀ o : Occasion ω, o.op = .tick → ticks os + 1 = n.toNat →
        (o.enter (applyAll l os)).CalmUntilTurn h i.number (o.op.acts (o.enter (applyAll l os))) →
        ∃ xs ys, o.op.acts (o.enter (applyAll l os)) = xs ++ .turn h :: ys ∧ .turn h ∉ xs ∧
          ((o.enter (applyAll l os)).actAll xs).Resumes h i) ∧
    ∀ {ctx : Context} {m : Machine ω} {inst : Instruction} {source : Source} {v : Int32},
      m.inst.status = .running →
      Instruction.decode ctx.program.codeWidth ctx.program.image m.inst.pc = .ok inst →
      inst.opcode = some (.delay source) → m.argument? ctx inst source = some v →
      ∀ fuel, m.loop ctx (fuel + 1) =
        if 0 < v then (fuel, (m.afterDelay inst source).waiting v.toUInt32)
        else (m.afterDelay inst source).loop ctx fuel := by
  refine ⟨?_, Machine.loop_delay⟩
  intro l h i n os hl hrole hcount hi hst hfew hcalm
  obtain ⟨hrest, hcurrent⟩ := hl.atRest
  obtain ⟨hl', hrole', ⟨last, hlast, hi'⟩, hturns⟩ :=
    delayed_applyAll hrest hrole hi hst (hcurrent.ne_succ hcount hi) hfew hcalm
  refine ⟨⟨last, hi'⟩, hturns, fun o hop hnext hcalm' => ?_⟩
  rw [hop] at hcalm' ⊢
  have hone : n.toNat - ticks os = 1 := by omega
  rw [hone] at hi'
  obtain ⟨xs, ys, last', hacts, hxs, -, hi'', -⟩ := Simulation.turn_of_delayed
    (s := o.enter (applyAll l os)) hl' hrole' hi' rfl hlast hcalm'
  have hresumes := Simulation.resumes_of_delayed hi'' rfl
  exact ⟨.tick :: xs, ys, hacts, by simp [hxs], hresumes⟩

end Occasion

namespace Dozing

open Simulation

/-- Script 1 waits for two ticks, and ends. -/
def program : Program :=
  { (default : Program) with
    image := #[56, 0, 0, 0, 2, 0, 0, 0, 1, 0, 0, 0]
    layout := .enhanced .wide
    scripts := [{ (default : Script) with number := 1 }] }

def idle : Simulation StillWorld := ⟨.start program 1 .standard, .empty, default, default⟩

/-- Script 1 is started and did not run yet. -/
def started : Simulation StillWorld := (idle.start { script := 1, deferStart := true }).2.reap

/-- It is told to wait for two ticks before. -/
def dozing : Simulation StillWorld := (Operation.run started (.setStatus 1 (.delayed 2))).2

def tick : Occasion StillWorld := ⟨.tick, .empty, default, default⟩

/-- A tick later it waits for one more. -/
def roused : Simulation StillWorld := ((tick.enter dozing.level).act .tick).turn ⟨0, 0⟩

theorem facts :
    ((dozing.level.instance? ⟨0, 0⟩).map (·.status) = some (.delayed 2) ∧
      dozing.level.isReplica = false ∧ dozing.level.tick + 1 ≠ 0) ∧
    ((tick.enter dozing.level).act .tick).dueHandles = [⟨0, 0⟩] ∧
    ((tick.enter dozing.level).act .tick).visitActs ⟨0, 0⟩ = [.turn ⟨0, 0⟩] ∧
    roused.level.pending = [] ∧ roused.level.ready = [] ∧ roused.reapActs = [] ∧
    roused.level.isReplica = false ∧ ((tick.enter roused.level).act .tick).dueHandles = [⟨0, 0⟩] ∧
    (roused.level.instance? ⟨0, 0⟩).map (((tick.enter roused.level).act .tick).isDue ·) =
      some true := by
  decide +kernel

theorem met_dozing : dozing.level.Met := by
  have hstarted : (Operation.run idle (.launch { script := 1, deferStart := true })).2 =
      started :=
    Operation.run_launch_deferred (by decide +kernel) (by decide +kernel) (by decide +kernel)
  have hidle : idle.level.Met := .start program 1 .standard
  have hmet := hidle.run (.launch { script := 1, deferStart := true })
  rw [hstarted] at hmet
  exact hmet.run (.setStatus 1 (.delayed 2))

theorem tickActs_dozing : (tick.enter dozing.level).tickActs = [.tick, .turn ⟨0, 0⟩] := by
  obtain ⟨⟨-, hrole, -⟩, hdue, hvisit, hpending, hready, hreap, -⟩ := facts
  have hroused : ((tick.enter dozing.level).act .tick).visit ⟨0, 0⟩ = roused := by
    rw [← actAll_visitActs, hvisit]
    rfl
  rw [tickActs, if_neg (by simp [Occasion.enter, hrole]), hdue, passActs, passActs, hvisit,
    hroused, settleActs_done hpending hready, hreap]
  rfl

theorem applyAll_dozing : Occasion.applyAll dozing.level [tick] = roused.level := by
  have hrun := Operation.run_eq_acts (tick.enter dozing.level) .tick
  rw [Operation.acts, tickActs_dozing] at hrun
  exact congrArg Simulation.level hrun

theorem tickActs_roused :
    ∃ rest, (tick.enter roused.level).tickActs = .tick :: .turn ⟨0, 0⟩ :: rest := by
  obtain ⟨-, -, -, -, -, -, hrole, hdue, hwaits⟩ := facts
  obtain ⟨i, hi, hnow⟩ := Option.map_eq_some_iff.mp hwaits
  obtain ⟨more, hvisit⟩ := visitActs_of_due (s := (tick.enter roused.level).act .tick) hi hnow
  rw [tickActs, if_neg (by simp [Occasion.enter, hrole]), hdue, passActs, hvisit]
  exact ⟨_, rfl⟩

theorem decode_delay : Instruction.decode program.codeWidth program.image 0 =
    .ok ⟨0, 56, some (.delay .words), #[2], 8⟩ := by
  have hfacts : some (.delay .words) = Opcode.ofNumber? 56 ∧
      Instruction.layoutOf 56 = [.word] := by decide +kernel
  refine Instruction.decode_eq_ok_iff.mpr ⟨4, rfl, rfl, hfacts.1, ?_⟩
  rw [hfacts.2]
  rfl

/-- After one of the two ticks the instance still waits; in the other it runs. The delay at the
start of its script would stop it at once. -/
theorem delay_exact_dozing :
    ∃ i, dozing.level.Met ∧ dozing.level.instance? ⟨0, 0⟩ = some i ∧ i.status = .delayed 2 ∧
      (∃ last, (Occasion.applyAll dozing.level [tick]).instance? ⟨0, 0⟩ =
        some { i with status := .delayed 1, lastTick := last }) ∧
      (∃ xs ys, tick.op.acts (tick.enter (Occasion.applyAll dozing.level [tick])) =
          xs ++ Act.turn ⟨0, 0⟩ :: ys ∧ Act.turn ⟨0, 0⟩ ∉ xs ∧
        ((tick.enter (Occasion.applyAll dozing.level [tick])).actAll xs).Resumes ⟨0, 0⟩ i) ∧
      ∀ fuel, (idle.machine default).loop ⟨program, .standard, 0⟩ (fuel + 1) = (fuel,
        ((idle.machine default).afterDelay ⟨0, 56, some (.delay .words), #[2], 8⟩ .words).waiting
          2) := by
  obtain ⟨⟨hdelayed, hrole, hcount⟩, -⟩ := facts
  obtain ⟨i, hi, hst⟩ := Option.map_eq_some_iff.mp hdelayed
  have hplain (s : Simulation StillWorld) {a : Act} (ha : a = .tick ∨ a = .turn ⟨0, 0⟩) :
      ¬ s.Disturbs ⟨0, 0⟩ i.number a := by
    rintro (rfl | ⟨-, st, hsets⟩)
    · simp at ha
    · rcases ha with rfl | rfl <;> cases hsets
  have hcalm : ∀ m ∈ Occasion.moments dozing.level [tick], ¬ m.1.Disturbs ⟨0, 0⟩ i.number m.2 := by
    intro m hm
    rw [Occasion.moments, Occasion.moments, List.append_nil, show tick.op.acts _ = _ from
      tickActs_dozing] at hm
    rcases List.mem_cons.mp hm with rfl | hm
    · exact hplain _ (.inl rfl)
    · rw [List.mem_singleton.mp hm]
      exact hplain _ (.inr rfl)
  have hfew : Occasion.ticks [tick] < (2 : UInt32).toNat := by decide
  obtain ⟨hfirst, -, hsecond⟩ := Occasion.delay_exact.1 met_dozing hrole hcount hi hst hfew hcalm
  refine ⟨i, met_dozing, hi, hst, hfirst, hsecond tick rfl rfl ?_, ?_⟩
  · intro xs a ys hacts hxs
    obtain ⟨rest, htick⟩ := tickActs_roused
    rw [applyAll_dozing, show tick.op.acts _ = _ from htick] at hacts
    cases xs with
    | nil => exact hplain _ (.inl (List.cons.inj hacts).1.symm)
    | cons b xs =>
      cases xs with
      | nil => exact hplain _ (.inr (List.cons.inj (List.cons.inj hacts).2).1.symm)
      | cons c xs =>
        have hc := (List.cons.inj (List.cons.inj hacts).2).1
        exact absurd (by simp [hc]) hxs
  · have hrunning : (idle.machine default).inst.status = .running := rfl
    have hdecode : Instruction.decode (⟨program, .standard, 0⟩ : Context).program.codeWidth
        program.image (idle.machine default).inst.pc = _ := decode_delay
    exact Occasion.delay_exact.2 hrunning hdecode rfl rfl

end Dozing

end LevelScript
