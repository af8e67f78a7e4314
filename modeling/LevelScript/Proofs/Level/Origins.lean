import LevelScript.Proofs.Snapshot.Transparency

/-!
# How instances were started

A script is started alone, or besides other instances of it. The registry does not keep this: it
leads to one instance of a script, and instances come and go in cells that are used again. Here
every handle keeps how its instance was started, from the act that started it on. Both agree: the
tracked instances are those that were started alone, so of every script there is at most one.

* `Origins`: how the instance of each handle was started.
* `Level.Grown`: the levels that a game meets, saves and restores included, with the origins of
  their instances.
* `Level.Tracks`: what can happen to tracked instances; `tracks_act`: nothing else happens.
* `Simulation.start_of_tracked`: what a start finds while there is a tracked instance.
* `started_alone_once`: the origins and the registry agree at every moment.
-/

namespace LevelScript

/-! ## Origins -/

/-- Whether the instance of a handle was started besides others. -/
abbrev Origins := Handle → Bool

namespace Origins

variable {ω : Type}

/-- The origins after an act: an instance that was there keeps its origin, and a new one has the
origin that the act gives. -/
def after (o : Origins) (s : Simulation ω) (a : Act) : Origins := fun h =>
  if (s.level.instance? h).isSome then o h else a.startsBesides

/-- The origins after acts, one after the other. -/
def along [Host ω] (o : Origins) : Simulation ω → List Act → Origins
  | _, [] => o
  | s, a :: rest => (o.after s a).along (s.act a) rest

end Origins

/-- The levels that a game meets, with the origins of their instances: it starts one, performs
operations, and goes on from what it saved before. An instance that was saved keeps its place, and
there its origin. -/
inductive Level.Grown : Level → Origins → Prop
  | start (program : Program) (map : Int32) (config : Config) (o : Origins) :
      Grown (start program map config) o
  | run {ω : Type} [Host ω] {s : Simulation ω} {o : Origins} (h : Grown s.level o)
      (op : Operation) : Grown (op.run s).2.level (o.along s (op.acts s))
  | restore {l l' : Level} {program : Program} {config : Config} {o o' : Origins} (h : Grown l o)
      (hr : restore program l.snapshot config = .ok l')
      (same : ∀ (place : Nat) k k', l.roster.handles[place]? = some k →
        l'.roster.handles[place]? = some k' → o' k' = o k) : Grown l' o'

/-- The tracked instances are those that were started alone. -/
def Origins.Agree (o : Origins) (l : Level) : Prop :=
  ∀ h i, l.instance? h = some i → (l.find? i.number = some h ↔ o h = false)

/-! ## Tracked instances in one act -/

namespace Level

/-- How a level goes on: an instance that stays keeps its number and is tracked if it was, and a
new one is tracked unless it is started besides others. -/
structure Tracks (besides : Bool) (l l' : Level) : Prop where
  old : ∀ h i j, l.instance? h = some i → l'.instance? h = some j →
    j.number = i.number ∧ (l'.find? i.number = some h ↔ l.find? i.number = some h)
  new : ∀ h j, l.instance? h = none → l'.instance? h = some j →
    (l'.find? j.number = some h ↔ besides = false)

variable {besides : Bool} {l l' : Level} {h : Handle} {i : Instance}

theorem number_settled (n : Int32) (always : Bool) (i : Instance) :
    (settled n always i).number = i.number := by
  unfold settled
  split <;> rfl

/-- Every step leaves tracked what it tracks, and tracks what it starts alone. -/
theorem Step.tracks {a : Act} (hs : l.Step a l') (hl : l.Sound) :
    Tracks a.startsBesides l l' := by
  refine ⟨fun h i j hi hj => ⟨?_, ?_⟩, fun h j hnone hj => ?_⟩
  · rcases hs.origin hl hj with ⟨i', hi', hfate⟩ | ⟨hnone, -⟩
    · rw [Option.some.inj (hi.symm.trans hi')]
      exact hfate.script.1
    · cases hnone.symm.trans hi
  · cases hs with
    | @add _ i₀ idle new free =>
      show (l.add i₀ a.startsBesides).2.find? i.number = some h ↔ _
      rw [find?_add]
      split
      · -- Nothing is tracked under the number of the new instance, before it is.
        rename_i hadded
        rw [hadded.2, hl.find?_eq_none (free hadded.1)]
        refine ⟨fun hk => ?_, fun hk => by cases hk⟩
        rw [← Option.some.inj hk, instance?_fst_add hl] at hi
        cases hi
      · rfl
    | turn _ _ turned =>
      show Registry.find? _ _ = _ ↔ Registry.find? _ _ = _
      rw [turned.tracked]
    | @remove k r inst =>
      rw [find?_remove inst]
      split
      · rename_i hgone
        have hne : k ≠ h := by
          rintro rfl
          rw [instance?_remove hl.roster inst, if_pos rfl] at hj
          cases hj
        rw [hgone.1, hgone.2]
        simp [hne]
      · rfl
    | terminateAll => cases (Roster.instance?_clear hl.roster h).symm.trans hj
    | _ => rfl
  · rcases hs.added hl with ⟨hold, -⟩ | ⟨i, -, -, rfl⟩
    · cases (hold h hnone).symm.trans hj
    · replace hj : (l.add i a.startsBesides).2.instance? h = some j := hj
      show (l.add i a.startsBesides).2.find? j.number = some h ↔ _
      rw [instance?_add hl.roster] at hj
      split at hj
      · rename_i hk
        obtain rfl := Option.some.inj hj
        rw [number_settled, find?_add, hk]
        cases a.startsBesides with
        | false => simp
        | true =>
          refine ⟨fun hfound => ?_, fun hbesides => absurd hbesides (by simp)⟩
          rw [if_neg (by simp)] at hfound
          obtain ⟨i', hi', -⟩ := hl.find hfound
          cases (instance?_fst_add hl i _).symm.trans hi'
      · rw [hnone] at hj
        cases hj

/-- Origins and registry agree from one act to the next. -/
theorem Tracks.agree {ω : Type} {s : Simulation ω} {a : Act} {o : Origins}
    (hf : Tracks a.startsBesides s.level l') (ho : o.Agree s.level) : (o.after s a).Agree l' := by
  intro h j hj
  unfold Origins.after
  cases hi : s.level.instance? h with
  | some i =>
    obtain ⟨hnumber, htracked⟩ := hf.old h i j hi hj
    rw [Option.isSome_some, if_pos rfl, hnumber, htracked]
    exact ho h i hi
  | none =>
    rw [Option.isSome_none, if_neg (by simp)]
    exact hf.new h j hi hj

end Level

/-! ## Starts -/

namespace Simulation

variable {ω : Type} {s : Simulation ω} {p : Launch} {h : Handle} {i : Instance} {script : Script}

/-- A start alone, while there is a tracked instance: it adds nothing, and lets that instance run
again if it is suspended. -/
theorem start_of_tracked (hscript : s.level.program.findScript p.script = some script)
    (halways : p.always = false) (hfind : s.level.find? p.script = some h)
    (hi : s.level.instance? h = some i) :
    s.start p =
      if i.status = .suspended then (true, s.modifyLevel fun l =>
        { l with roster := l.roster.modify h ({ · with status := .running }) })
      else (false, s) := by
  unfold start
  rw [hscript]
  simp only [halways, Bool.false_eq_true, if_false, hfind, Option.bind_some, hi, Option.map_some]

/-- A start besides others, or of a script that is not tracked, adds an instance. -/
theorem start_of_free (hscript : s.level.program.findScript p.script = some script)
    (hfree : p.always = false → s.level.find? p.script = none) :
    s.start p = (true, s.enlist script p) := by
  have hnone : (if p.always then none else s.level.find? p.script) = none := by
    cases halways : p.always with
    | true => rfl
    | false => exact hfree halways
  unfold start
  rw [hscript]
  simp only [hnone, Option.bind_none]

variable [Host ω]

/-- Every act leaves tracked what it tracks, and tracks what it starts alone. -/
theorem tracks_act (hl : s.level.Sound) (a : Act) :
    Level.Tracks a.startsBesides s.level (s.act a).level :=
  (step_act s a).tracks hl

/-- Origins and registry agree along acts. -/
theorem agree_along {o : Origins} (hl : s.level.Sound) (ho : o.Agree s.level) (acts : List Act) :
    (o.along s acts).Agree (s.actAll acts).level := by
  induction acts generalizing s o with
  | nil => exact ho
  | cons a rest ih => exact ih (sound_act hl a) ((tracks_act hl a).agree ho)

end Simulation

/-! ## The levels of a game -/

namespace Level

variable {l l' : Level} {ps : List Pair} {o o' : Origins}

/-- Paired instances are tracked together. -/
theorem Paired.find?_eq_some_iff (h : Paired ps l l') (hl : l.Sound) (hl' : l'.Sound) {p : Pair}
    (hp : p ∈ ps) (n : Int32) : l'.find? n = some p.2.1 ↔ l.find? n = some p.1.1 := by
  have hleft := Roster.nodup_keys hl.roster
  rw [h.left, List.map_map] at hleft
  have hright := Roster.nodup_keys hl'.roster
  rw [h.right, List.map_map] at hright
  have hrel := h.tracked n
  generalize l.find? n = x at hrel ⊢
  generalize l'.find? n = y at hrel ⊢
  cases hrel with
  | none => simp
  | some hab =>
    obtain ⟨q, hq, rfl, rfl⟩ := hab
    rw [Option.some.injEq, Option.some.injEq]
    constructor
    · intro heq
      rw [List.inj_on_of_nodup_map hright hq hp heq]
    · intro heq
      rw [List.inj_on_of_nodup_map hleft hq hp heq]

/-- Origins that are kept in their places agree with the registry of the restored level. -/
theorem Paired.agree (h : Paired ps l l') (hl : l.Sound) (hl' : l'.Sound)
    (hnumber : ∀ p ∈ ps, p.2.2.number = p.1.2.number)
    (same : ∀ (place : Nat) k k', l.roster.handles[place]? = some k →
      l'.roster.handles[place]? = some k' → o' k' = o k) (ho : o.Agree l) : o'.Agree l' := by
  intro b j hj
  have hmem : (b, j) ∈ ps.map Prod.snd := by
    rw [← h.right]
    exact (Roster.mem_entries_iff hl'.roster).mpr hj
  obtain ⟨p, hp, heq⟩ := List.mem_map.mp hmem
  obtain ⟨⟨a, i⟩, _⟩ := p
  obtain rfl : _ = (b, j) := heq
  have hi : l.instance? a = some i := by
    rw [instance?, ← Roster.mem_entries_iff hl.roster, h.left]
    exact List.mem_map_of_mem hp
  obtain ⟨place, hplace⟩ := List.getElem?_of_mem hp
  have horigin : o' b = o a := by
    refine same place a b ?_ ?_
    · rw [Roster.handles_eq hl.roster, h.left]
      simp [hplace]
    · rw [Roster.handles_eq hl'.roster, h.right]
      simp [hplace]
  rw [hnumber _ hp, h.find?_eq_some_iff hl hl' hp, horigin]
  exact ho a i hi

/-- Origins and registry agree, and all instances are of the program's scripts. -/
structure Traced (l : Level) (o : Origins) : Prop where
  sound : l.Sound
  agree : o.Agree l
  allRun : l.AllRun l.program

theorem traced_start (program : Program) (map : Int32) (config : Config) (o : Origins) :
    (start program map config).Traced o := by
  have hnone : ∀ h i, (start program map config).instance? h ≠ some i := fun h i hi =>
    absurd ((Roster.mem_entries_iff Roster.sound_empty).mpr hi) List.not_mem_nil
  exact ⟨sound_start program map config, fun h i hi => absurd hi (hnone h i),
    fun h i hi => absurd hi (hnone h i)⟩

theorem Traced.along {ω : Type} [Host ω] {s : Simulation ω} (h : s.level.Traced o)
    (acts : List Act) : (s.actAll acts).level.Traced (o.along s acts) where
  sound := Simulation.sound_actAll h.sound acts
  agree := Simulation.agree_along h.sound h.agree acts
  allRun := by
    rw [(Simulation.stays_actAll s acts).program]
    exact Simulation.allRun_actAll h.sound rfl h.allRun acts

theorem Traced.restore {program : Program} {config : Config} (h : l.Traced o)
    (hr : restore program l.snapshot config = .ok l')
    (same : ∀ (place : Nat) k k', l.roster.handles[place]? = some k →
      l'.roster.handles[place]? = some k' → o' k' = o k) : l'.Traced o' := by
  obtain ⟨ps, hpaired, hrestored⟩ := paired_restore h.sound hr
  have hsound := sound_restore hr
  refine ⟨hsound, hpaired.agree h.sound hsound (fun p hp => ?_) same h.agree, fun b j hj => ?_⟩
  · obtain ⟨script, -, heq⟩ := hrestored p hp
    rw [heq]
  · have hprogram : l'.program = program := by
      obtain ⟨-, memory, instances, -, -, rfl⟩ := restore_eq_ok hr
      rw [foldl_addRestored_eq]
      rfl
    have hmem : (b, j) ∈ ps.map Prod.snd := by
      rw [← hpaired.right]
      exact (Roster.mem_entries_iff hsound.roster).mpr hj
    obtain ⟨p, hp, heq⟩ := List.mem_map.mp hmem
    obtain ⟨script, hscript, hj⟩ := hrestored p hp
    rw [heq] at hj
    subst hj
    rw [hprogram]
    exact ⟨script, hscript, rfl, rfl⟩

theorem Grown.traced (h : l.Grown o) : l.Traced o := by
  induction h with
  | start program map config o => exact traced_start program map config o
  | @run _ _ s _ _ op ih =>
    rw [op.run_eq_acts]
    exact ih.along (op.acts s)
  | restore _ hr same ih => exact ih.restore hr same

end Level

/-! ## Moments -/

namespace Simulation

variable {ω : Type}

section

variable [Host ω]

/-- A moment that a game meets, between any two acts of an operation, with the origins there. -/
def Met (t : Simulation ω) (o : Origins) : Prop :=
  ∃ (s : Simulation ω) (o' : Origins) (op : Operation) (before after : List Act),
    s.level.Grown o' ∧ op.acts s = before ++ after ∧ t = s.actAll before ∧ o = o'.along s before

theorem Met.traced {t : Simulation ω} {o : Origins} (h : t.Met o) : t.level.Traced o := by
  obtain ⟨s, o', op, before, after, hgrown, -, rfl, rfl⟩ := h
  exact hgrown.traced.along before

/-- Whether an act tells that it had an effect. -/
def succeeds (s : Simulation ω) : Act → Bool
  | .start p => (s.start p).1
  | .route r => (s.route r).1
  | _ => false

/-- The starts that are counted are those that succeed when it is their turn. -/
theorem startAll_fst (s : Simulation ω) (launches : List Launch) :
    (s.startAll launches).1 =
      (s.moments (launches.map .start)).countP fun m => m.1.succeeds m.2 := by
  have hcount (n : Nat) (s : Simulation ω) (launches : List Launch) :
      (launches.foldl (fun q p => (if (q.2.start p).1 then q.1 + 1 else q.1, (q.2.start p).2))
        (n, s)).1 = n + (s.moments (launches.map .start)).countP fun m => m.1.succeeds m.2 := by
    induction launches generalizing n s with
    | nil => rfl
    | cons p rest ih =>
      have hact : s.act (.start p) = (s.start p).2 := rfl
      have hhead : s.succeeds (.start p) = (s.start p).1 := rfl
      rw [List.foldl_cons, ih, List.map_cons, moments, List.countP_cons, hact, hhead]
      cases (s.start p).1 with
      | true => exact Nat.add_right_comm n 1 _
      | false => rfl
  rw [← Nat.zero_add (List.countP _ _), ← hcount]
  rfl

/-- An act that launches a script alone is a start of it, on the same level. -/
theorem exists_start_of_launches {t : Simulation ω} {n : Int32} {a : Act} {script : Script}
    (hscript : t.level.program.findScript n = some script) (ha : a.Launches t.level n) :
    ∃ (t' : Simulation ω) (p : Launch), t'.level = t.level ∧ p.script = n ∧ p.always = false ∧
      t.act a = (t'.start p).2 ∧ ((∀ e, a ≠ .deliver e) → t.succeeds a = (t'.start p).1) := by
  cases ha with
  | @start p hn halways => exact ⟨t, p, rfl, hn, halways, rfl, fun _ => rfl⟩
  | @request map args activator line side here =>
    have hroute : t.route (.execute map n args false activator line side) =
        t.start ⟨n, activator, line, side, args, false, false⟩ := by
      rw [route, if_neg fun hother => here.elim hother.1 hother.2]
      rfl
    exact ⟨t, ⟨n, activator, line, side, args, false, false⟩, rfl, rfl, rfl,
      congrArg Prod.snd hroute, fun _ => congrArg Prod.fst hroute⟩
  | @deferred e hn haction =>
    refine ⟨(t.actorOf e.player).2,
      { script := e.script, activator := (t.actorOf e.player).1, args := e.args },
      level_actorOf t e.player, hn, rfl, ?_, fun hne => absurd rfl (hne e)⟩
    rw [act, deliver, if_neg (by simp [hn, hscript]), haction]
    rfl

end

/-- What a start alone does while there is a tracked instance. -/
theorem instance?_start_of_tracked {s : Simulation ω} {p : Launch} {h : Handle} {i : Instance}
    {script : Script} (hl : s.level.Sound)
    (hscript : s.level.program.findScript p.script = some script) (halways : p.always = false)
    (hfind : s.level.find? p.script = some h) (hi : s.level.instance? h = some i) :
    (∀ k, (s.start p).2.level.instance? k =
      if k = h ∧ i.status = .suspended then some { i with status := .running }
      else s.level.instance? k) ∧
    (s.start p).2.level.tracked = s.level.tracked ∧
    (s.start p).1 = decide (i.status = .suspended) := by
  rw [start_of_tracked hscript halways hfind hi]
  split
  · rename_i hsuspended
    refine ⟨fun k => ?_, rfl, by simp [hsuspended]⟩
    refine (Roster.instance?_modify hl.roster ..).trans ?_
    by_cases hk : k = h
    · rw [if_pos hk, if_pos ⟨hk, hsuspended⟩, hk, show s.level.roster.instance? h = some i from hi]
      rfl
    · rw [if_neg hk, if_neg fun hand => hk hand.1]
      rfl
  · rename_i hother
    refine ⟨fun k => ?_, rfl, by simp [hother]⟩
    rw [if_neg fun hand => hother hand.2]

/-- What a start does if it is besides others, or there is no tracked instance. -/
theorem instance?_start_of_free {s : Simulation ω} {p : Launch} {script : Script}
    (hl : s.level.Sound) (hscript : s.level.program.findScript p.script = some script)
    (hfree : p.always = false → s.level.find? p.script = none) :
    (s.start p).1 = true ∧ ∃ h i, s.level.instance? h = none ∧
      (s.start p).2.level.instance? h = some i ∧ i.number = p.script := by
  have hlevel := level_enlist s script p
  dsimp only at hlevel
  rw [start_of_free hscript hfree, hlevel]
  have hnumber : (Instance.start script s.level.config.scriptLocals p.args.toList p.activator
    p.line p.side).number = p.script := Program.number_of_findScript hscript
  generalize Instance.start script s.level.config.scriptLocals p.args.toList p.activator p.line
    p.side = i at hnumber
  refine ⟨rfl, (s.level.add i p.always).1, Level.settled i.number p.always i, ?_, ?_, ?_⟩
  · rw [Level.fst_add]
    exact Roster.instance?_fst_add hl.roster i
  · refine (Level.instance?_add hl.roster i p.always _).trans ?_
    rw [if_pos rfl]
    rfl
  · rw [Level.number_settled, hnumber]

end Simulation

/-- **Of every script at most one instance was started alone.** At every moment of a game it is
the tracked instance, and instances that are not tracked were started besides others. A start of
the script alone then adds nothing; it succeeds if that instance is suspended, which runs again,
and fails in every other status. All other starts add an instance. What a launch, a request and
the start of all scripts of a kind tell is how their starts went. -/
theorem started_alone_once {ω : Type} [Host ω] {t : Simulation ω} {o : Origins} (h : t.Met o) :
    (∀ n h, t.level.find? n = some h ↔
      ∃ i, t.level.instance? h = some i ∧ i.number = n ∧ o h = false) ∧
    (∀ h k i j, t.level.instance? h = some i → t.level.instance? k = some j →
      i.number = j.number → o h = false → o k = false → h = k) ∧
    (∀ h i, t.level.instance? h = some i → (t.level.find? i.number ≠ some h ↔ o h = true)) ∧
    (∀ h i a, t.level.instance? h = some i → o h = false → a.Launches t.level i.number →
      (∀ k, (t.act a).level.instance? k =
        if k = h ∧ i.status = .suspended then some { i with status := .running }
        else t.level.instance? k) ∧
      (t.act a).level.tracked = t.level.tracked ∧
      ((∀ e, a ≠ .deliver e) → t.succeeds a = decide (i.status = .suspended))) ∧
    (∀ p, (t.level.program.findScript p.script).isSome →
      (p.always = false → ∀ h i, t.level.instance? h = some i → i.number = p.script →
        o h = true) →
      (t.start p).1 = true ∧ ∃ h i, t.level.instance? h = none ∧
        (t.start p).2.level.instance? h = some i ∧ i.number = p.script ∧
        ((t.start p).2.level.find? p.script = some h ↔ p.always = false)) ∧
    (∀ p, (Operation.run t (.launch p)).1 =
      .flag (!t.level.isReplica && t.succeeds (.start p))) ∧
    (∀ r, (Operation.run t (.request r)).1 =
      .flag (!t.level.isReplica && t.succeeds (.route r))) ∧
    (∀ kind activator always, (Operation.run t (.startKind kind activator always)).1 =
      .count (if t.level.isReplica then 0 else
        (t.moments ((t.kindLaunches kind activator always).map .start)).countP fun m =>
          m.1.succeeds m.2)) := by
  obtain ⟨hl, hagree, hrun⟩ := h.traced
  have hfind (n : Int32) (h : Handle) : t.level.find? n = some h ↔
      ∃ i, t.level.instance? h = some i ∧ i.number = n ∧ o h = false := by
    constructor
    · intro hn
      obtain ⟨i, hi, rfl⟩ := hl.find hn
      exact ⟨i, hi, rfl, (hagree h i hi).mp hn⟩
    · rintro ⟨i, hi, rfl, ho⟩
      exact (hagree h i hi).mpr ho
  refine ⟨hfind, ?_, ?_, ?_, ?_, ?_, ?_, ?_⟩
  · intro h k i j hi hj hnumber hh hk
    have hboth := (hagree h i hi).mpr hh
    rw [hnumber, (hagree k j hj).mpr hk] at hboth
    exact (Option.some.inj hboth).symm
  · intro h i hi
    rw [ne_eq, hagree h i hi, Bool.not_eq_false]
  · intro h i a hi ho ha
    obtain ⟨script, hscript, -⟩ := hrun h i hi
    obtain ⟨t', p, hlevel, hn, halways, hact, htold⟩ :=
      Simulation.exists_start_of_launches hscript ha
    have htracked := (hagree h i hi).mpr ho
    rw [← hlevel, ← hn] at hscript htracked
    obtain ⟨hinst, hkept, hok⟩ := Simulation.instance?_start_of_tracked (hlevel ▸ hl) hscript
      halways htracked (hlevel ▸ hi)
    rw [hact, ← hlevel]
    exact ⟨hinst, hkept, fun hne => (htold hne).trans hok⟩
  · intro p hsome hbesides
    obtain ⟨script, hscript⟩ := Option.isSome_iff_exists.mp hsome
    have hfree : p.always = false → t.level.find? p.script = none := fun halways => by
      refine Option.eq_none_iff_forall_ne_some.mpr fun h hh => ?_
      obtain ⟨i, hi, hn, ho⟩ := (hfind p.script h).mp hh
      rw [hbesides halways h i hi hn] at ho
      cases ho
    obtain ⟨hok, h, i, hnone, hi, hn⟩ := Simulation.instance?_start_of_free hl hscript hfree
    exact ⟨hok, h, i, hnone, hi, hn, hn ▸ (Simulation.tracks_act hl (.start p)).new h i hnone hi⟩
  · intro p
    show Outcome.flag (t.launch p).1 = _
    unfold Simulation.launch
    cases t.level.isReplica with
    | true => rfl
    | false => rfl
  · intro r
    show Outcome.flag (t.request r).1 = _
    unfold Simulation.request
    cases t.level.isReplica with
    | true => rfl
    | false => rfl
  · intro kind activator always
    show Outcome.count (t.startKind kind activator always).1 = _
    unfold Simulation.startKind
    rw [← Simulation.startAll_fst]
    cases t.level.isReplica with
    | true => rfl
    | false => rfl

namespace Joined

open Simulation

def program : Program :=
  { (default : Program) with
    image := #[1, 0, 0, 0]
    layout := .enhanced .wide
    scripts := [{ (default : Script) with number := 1 }] }

def idle : Simulation StillWorld := ⟨.start program 1 .standard, .empty, default, default⟩

/-- Script 1 was started alone. -/
def alone : Simulation StillWorld := (idle.start { script := 1, deferStart := true }).2.reap

/-- It was started once more, besides the first. -/
def joined : Simulation StillWorld :=
  (alone.start { script := 1, always := true, deferStart := true }).2.reap

/-- What was started alone is suspended. -/
def paused : Simulation StillWorld := (joined.setStatus 1 .suspended).2

theorem run_alone :
    (Operation.run idle (.launch { script := 1, deferStart := true })).2 = alone :=
  Operation.run_launch_deferred (by decide +kernel) (by decide +kernel) (by decide +kernel)

theorem run_joined :
    (Operation.run alone (.launch { script := 1, always := true, deferStart := true })).2 =
      joined :=
  Operation.run_launch_deferred (by decide +kernel) (by decide +kernel) (by decide +kernel)

theorem met_paused : ∃ o, paused.Met o := by
  have hidle : idle.level.Grown fun _ => false := .start program 1 .standard _
  obtain ⟨o, halone⟩ : ∃ o, alone.level.Grown o := ⟨_, run_alone ▸ hidle.run _⟩
  obtain ⟨o, hjoined⟩ : ∃ o, joined.level.Grown o := ⟨_, run_joined ▸ halone.run _⟩
  exact ⟨_, joined, o, .setStatus 1 .suspended, [.setStatus 1 .suspended], [], hjoined, rfl, rfl,
    rfl⟩

/-- The suspended instance is the one that was started alone, and a start alone lets it run. -/
theorem started_alone_once_paused :
    ∃ o, paused.Met o ∧ o ⟨0, 0⟩ = false ∧ o ⟨1, 0⟩ = true ∧
      paused.succeeds (.start { script := 1 }) = true ∧
      (paused.act (.start { script := 1 })).level.instance? ⟨1, 0⟩ =
        paused.level.instance? ⟨1, 0⟩ ∧
      ((paused.act (.start { script := 1 })).level.instance? ⟨0, 0⟩).map (·.status) =
        some .running := by
  have hfacts : paused.level.find? 1 = some ⟨0, 0⟩ ∧
      (paused.level.instance? ⟨0, 0⟩).map (fun i => (i.number, i.status)) =
        some (1, .suspended) ∧
      (paused.level.instance? ⟨1, 0⟩).map (·.number) = some 1 := by decide +kernel
  obtain ⟨hfind, hfirst, hsecond⟩ := hfacts
  obtain ⟨i, hi, hshown⟩ := Option.map_eq_some_iff.mp hfirst
  obtain ⟨hnumber, hstatus⟩ := Prod.mk.inj hshown
  obtain ⟨j, hj, hnumber'⟩ := Option.map_eq_some_iff.mp hsecond
  obtain ⟨o, hmet⟩ := met_paused
  obtain ⟨htracked, -, huntracked, hlaunch, -⟩ := started_alone_once hmet
  obtain ⟨-, -, -, horigin⟩ := (htracked 1 ⟨0, 0⟩).mp hfind
  have hother : o ⟨1, 0⟩ = true := (huntracked ⟨1, 0⟩ j hj).mp (by
    rw [hnumber', hfind]
    decide)
  obtain ⟨hinst, -, htold⟩ := hlaunch ⟨0, 0⟩ i (.start { script := 1 }) hi horigin
    (.start hnumber.symm rfl)
  refine ⟨o, hmet, horigin, hother, ?_, ?_, ?_⟩
  · rw [htold nofun, hstatus]
    rfl
  · rw [hinst, if_neg fun h => absurd h.1 (by decide)]
  · rw [hinst, if_pos ⟨rfl, hstatus⟩]
    rfl

end Joined

end LevelScript
