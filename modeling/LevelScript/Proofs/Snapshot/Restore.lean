import LevelScript.Proofs.Level.Change

/-!
# Restored levels

What a level is after its snapshot was restored: the same instances in the same order under other
handles, and the registry leads to the same ones.

* `restore_eq_ok`: what a successful restore has checked, and what it gives.
* `Level.Paired`: two levels have their instances in pairs, and track them alike.
* `paired_restore`: a level and what its snapshot gives are paired.
* `exists_of_restore`: every restored instance was saved.
-/

namespace LevelScript

namespace SavedInstance

theorem restore_eq_ok {program : Program} {config : Config} {saved : SavedInstance}
    {e : Instance × Bool} (h : saved.restore program config = .ok e) :
    ∃ script, program.findScript saved.number = some script ∧
      e = (saved.resume script, saved.tracked) := by
  unfold restore at h
  split at h
  · simp at h
  · rename_i script hscript
    split at h
    · simp at h
    · split at h
      · simp at h
      · exact ⟨script, hscript, (Except.ok.inj h).symm⟩

end SavedInstance

/-- Members of a list that was mapped without an error correspond one by one. -/
theorem forall₂_of_mapM_ok {α β ε : Type} {f : α → Except ε β} {xs : List α} {ys : List β}
    (h : xs.mapM f = .ok ys) : List.Forall₂ (fun x y => f x = .ok y) xs ys := by
  induction xs generalizing ys with
  | nil =>
    obtain rfl : [] = ys := Except.ok.inj h
    exact .nil
  | cons x xs ih =>
    rw [List.mapM_cons] at h
    cases hx : f x with
    | error e => simp [hx, bind, Except.bind] at h
    | ok y =>
      cases hxs : xs.mapM f with
      | error e => simp [hx, hxs, bind, Except.bind] at h
      | ok rest =>
        obtain rfl : y :: rest = ys := by
          simpa [hx, hxs, bind, Except.bind, pure, Except.pure] using h
        exact .cons hx (ih hxs)

namespace Level

/-- What a snapshot gives when it is restored. -/
theorem restore_eq_ok {program : Program} {snapshot : Snapshot} {config : Config} {l : Level}
    (h : restore program snapshot config = .ok l) :
    program.fingerprint = snapshot.fingerprint ∧ ∃ memory instances,
      snapshot.memory? program = some memory ∧
      snapshot.instances.mapM (SavedInstance.restore program config) = .ok instances ∧
      l = instances.foldl addRestored
        { start program snapshot.map config with memory := memory, tick := snapshot.tick } := by
  unfold restore at h
  split at h
  · simp at h
  · rename_i hprint
    refine ⟨by simpa using hprint, ?_⟩
    split at h
    · simp at h
    · rename_i memory hmemory
      cases hinst : snapshot.instances.mapM (SavedInstance.restore program config) with
      | error e =>
        rw [hinst] at h
        simp [bind, Except.bind] at h
      | ok instances =>
        rw [hinst] at h
        refine ⟨memory, instances, hmemory, rfl, ?_⟩
        simpa [bind, Except.bind, pure, Except.pure] using h.symm

/-- Adding instances leaves all else alone. -/
theorem foldl_addRestored_eq (es : List (Instance × Bool)) (l : Level) :
    es.foldl addRestored l = { l with
      roster := (es.foldl addRestored l).roster
      tracked := (es.foldl addRestored l).tracked } := by
  induction es generalizing l with
  | nil => rfl
  | cons e rest ih => exact ih (l.addRestored e)

theorem Sound.foldl_addRestored {l : Level} (hl : l.Sound) (es : List (Instance × Bool)) :
    (es.foldl Level.addRestored l).Sound := by
  induction es generalizing l with
  | nil => exact hl
  | cons e rest ih => exact ih (hl.addRestored e.1 e.2)

/-- A level that is being restored, before it has instances. -/
theorem sound_base (program : Program) (snapshot : Snapshot) (config : Config)
    (memory : MapMemory) :
    Sound { start program snapshot.map config with memory := memory, tick := snapshot.tick } :=
  (sound_start program snapshot.map config).congr rfl rfl

theorem sound_restore {program : Program} {snapshot : Snapshot} {config : Config} {l : Level}
    (h : restore program snapshot config = .ok l) : l.Sound := by
  obtain ⟨-, memory, instances, -, -, rfl⟩ := restore_eq_ok h
  exact (sound_base program snapshot config memory).foldl_addRestored instances

/-! ## Pairs -/

/-- An instance with its handle in one level, and one with its handle in another. -/
abbrev Pair := (Handle × Instance) × (Handle × Instance)

/-- The handle `b` of the second level stands for the handle `a` of the first. -/
def Stands (ps : List Pair) (a b : Handle) : Prop := ∃ p ∈ ps, p.1.1 = a ∧ p.2.1 = b

/-- The instances of two levels are the pairs `ps`, in the order of turns, and both track the
same of them. -/
structure Paired (ps : List Pair) (l l' : Level) : Prop where
  left : l.roster.entries = ps.map Prod.fst
  right : l'.roster.entries = ps.map Prod.snd
  tracked : ∀ n, Option.Rel (Stands ps) (l.find? n) (l'.find? n)

/-- The registry built so far leads to the partners of what `l` tracks. -/
def TracksPartners (l : Level) (ps : List Pair) (k : Level) : Prop :=
  ∀ n b, k.find? n = some b ↔ ∃ p ∈ ps, p.2.1 = b ∧ l.find? n = some p.1.1

section

variable {l k : Level} {ps : List Pair}

theorem entries_addRestored (hk : k.Sound) (e : Instance × Bool) :
    (k.addRestored e).roster.entries = k.roster.entries ++ [((k.roster.add e.1).1, e.1)] :=
  Roster.entries_add hk.roster e.1

theorem find?_addRestored (k : Level) (e : Instance × Bool) (n : Int32) :
    (k.addRestored e).find? n =
      if e.2 = true ∧ n = e.1.number then some (k.roster.add e.1).1 else k.find? n := by
  obtain ⟨i, tracked⟩ := e
  cases tracked with
  | false => rfl
  | true =>
    have h : (k.addRestored (i, true)).find? n =
        if n = i.number then some (k.roster.add i).1 else k.find? n :=
      Registry.find?_track k.tracked i.number n (k.roster.add i).1
    simpa using h

/-- One more instance keeps the partners, tracked if the one it stands for is. -/
theorem TracksPartners.addRestored (hl : l.Sound) (h : l.TracksPartners ps k)
    {e : Handle × Instance} {j : Instance} (he : l.instance? e.1 = some e.2)
    (hnew : ∀ p ∈ ps, p.1.1 ≠ e.1) (hnumber : j.number = e.2.number) :
    l.TracksPartners (ps ++ [(e, ((k.roster.add j).1, j))])
      (k.addRestored (j, l.find? e.2.number == some e.1)) := by
  intro n b
  rw [find?_addRestored]
  by_cases hn : l.find? n = some e.1
  · -- The new instance stands for what is tracked, and nothing else does.
    obtain ⟨i, hi, hin⟩ := hl.find hn
    rw [he] at hi
    obtain rfl : e.2 = i := Option.some.inj hi
    rw [if_pos ⟨by simp [hin, hn], by rw [hnumber, hin]⟩]
    constructor
    · intro hb
      exact ⟨(e, ((k.roster.add j).1, j)), by simp, Option.some.inj hb, hn⟩
    · rintro ⟨p, hp, rfl, hfind⟩
      rcases List.mem_append.mp hp with hp | hp
      · exact absurd (Option.some.inj (hfind.symm.trans hn)) (hnew p hp)
      · rw [List.mem_singleton.mp hp]
  · rw [if_neg]
    · rw [h n b]
      constructor
      · rintro ⟨p, hp, hb, hfind⟩
        exact ⟨p, List.mem_append_left _ hp, hb, hfind⟩
      · rintro ⟨p, hp, hb, hfind⟩
        rcases List.mem_append.mp hp with hp | hp
        · exact ⟨p, hp, hb, hfind⟩
        · rw [List.mem_singleton.mp hp] at hfind
          exact absurd hfind hn
    · rintro ⟨htracked, rfl⟩
      exact hn (by simpa [hnumber] using htracked)

variable (ps) in
/-- Adding partners for the entries `es`, one after the other. -/
theorem exists_pairs_foldl (hl : l.Sound) {es : List (Handle × Instance)}
    {js : List (Instance × Bool)}
    (hjs : List.Forall₂ (fun e j => j.1.number = e.2.number ∧
      j.2 = (l.find? e.2.number == some e.1)) es js)
    (hes : ∀ e ∈ es, l.instance? e.1 = some e.2)
    (hnodup : (ps.map (fun p => p.1.1) ++ es.map Prod.fst).Nodup) (hk : k.Sound)
    (hentries : k.roster.entries = ps.map Prod.snd) (h : l.TracksPartners ps k) :
    ∃ qs : List Pair, qs.map Prod.fst = es ∧ qs.map (fun q => q.2.2) = js.map Prod.fst ∧
      (js.foldl Level.addRestored k).roster.entries = (ps ++ qs).map Prod.snd ∧
      l.TracksPartners (ps ++ qs) (js.foldl Level.addRestored k) := by
  induction hjs generalizing ps k with
  | nil => exact ⟨[], rfl, rfl, by simpa using hentries, by simpa using h⟩
  | @cons e j es js hj hjs ih =>
    obtain ⟨j, flag⟩ := j
    obtain ⟨hnumber, rfl : flag = _⟩ := hj
    have hnew : ∀ p ∈ ps, p.1.1 ≠ e.1 := by
      intro p hp heq
      exact (List.nodup_append.mp hnodup).2.2 _ (List.mem_map_of_mem hp) e.1 (by simp) heq
    have hstep := h.addRestored hl (hes e List.mem_cons_self) hnew hnumber
    have hentries' := entries_addRestored hk (j, l.find? e.2.number == some e.1)
    obtain ⟨qs, hfst, hinst, hright, htracks⟩ :=
      ih _ (fun e he => hes e (List.mem_cons_of_mem _ he)) (by simpa using hnodup)
        (hk.addRestored j _) (by rw [hentries', hentries]; simp) hstep
    refine ⟨(e, ((k.roster.add j).1, j)) :: qs, by rw [List.map_cons, hfst],
      by rw [List.map_cons, hinst]; rfl, ?_, ?_⟩
    · rw [List.foldl_cons, hright]
      simp
    · rw [List.foldl_cons]
      simpa using htracks

end

/-- What restoring makes of an instance. -/
def Restored (program : Program) (i j : Instance) : Prop :=
  ∃ script, program.findScript i.number = some script ∧
    j = { i with typeTag := script.typeTag, entry := script.entry }

/-- A level and what its snapshot gives have the same instances in pairs. -/
theorem paired_restore {l l' : Level} {program : Program} {config : Config} (hl : l.Sound)
    (h : restore program l.snapshot config = .ok l') :
    ∃ ps, Paired ps l l' ∧ ∀ p ∈ ps, Restored program p.1.2 p.2.2 := by
  obtain ⟨-, memory, js, -, hmapM, rfl⟩ := restore_eq_ok h
  have hall := forall₂_of_mapM_ok hmapM
  rw [show l.snapshot.instances = l.roster.entries.map fun e =>
    e.2.save (l.find? e.2.number == some e.1) from rfl, List.forall₂_map_left_iff] at hall
  have hrestored : List.Forall₂ (fun e j => Restored program e.2 j.1 ∧
      j.1.number = e.2.number ∧ j.2 = (l.find? e.2.number == some e.1)) l.roster.entries js := by
    refine hall.imp fun e j he => ?_
    obtain ⟨script, hscript, rfl⟩ := SavedInstance.restore_eq_ok he
    have hnumber : script.number = e.2.number := Program.number_of_findScript hscript
    refine ⟨⟨script, hscript, ?_⟩, hnumber, rfl⟩
    simp only [SavedInstance.resume, Instance.save, hnumber]
  have hnone : l.TracksPartners [] { start program l.snapshot.map config with
      memory := memory, tick := l.snapshot.tick } := fun n b => by
    simp [find?, Registry.find?, start]
  obtain ⟨ps, hfst, hinst, hright, htracks⟩ := exists_pairs_foldl [] hl
    (hrestored.imp fun _ _ h => h.2) (fun e he => (Roster.mem_entries_iff hl.roster).mp he)
    (Roster.nodup_keys hl.roster) (sound_base program l.snapshot config memory) rfl hnone
  rw [List.nil_append] at hright htracks
  refine ⟨ps, ⟨hfst.symm, hright, fun n => ?_⟩, ?_⟩
  · cases hfind : l.find? n with
    | none =>
      have hright : Level.find? _ n = none := Option.eq_none_iff_forall_ne_some.mpr fun b hb => by
        obtain ⟨p, -, -, hp⟩ := (htracks n b).mp hb
        simp [hfind] at hp
      rw [hright]
      exact .none
    | some a =>
      obtain ⟨i, hi, -⟩ := hl.find hfind
      have hmem : (a, i) ∈ ps.map Prod.fst := by
        rw [hfst]
        exact (Roster.mem_entries_iff hl.roster).mpr hi
      obtain ⟨p, hp, hpa⟩ := List.mem_map.mp hmem
      have ha : p.1.1 = a := by rw [hpa]
      rw [(htracks n p.2.1).mpr ⟨p, hp, rfl, by rw [ha]; exact hfind⟩]
      exact .some ⟨p, hp, ha, rfl⟩
  · have hboth : List.Forall₂ (fun e j => Restored program e.2 j) l.roster.entries
        (js.map Prod.fst) := by
      rw [List.forall₂_map_right_iff]
      exact hrestored.imp fun _ _ h => h.1
    rwa [← hfst, ← hinst, List.forall₂_map_left_iff, List.forall₂_map_right_iff,
      List.forall₂_same] at hboth

/-- Every instance of a restored level was saved. -/
theorem exists_of_restore {l l' : Level} {program : Program} {config : Config} (hl : l.Sound)
    (h : restore program l.snapshot config = .ok l') {k : Handle} {j : Instance}
    (hj : l'.instance? k = some j) : ∃ a i, l.instance? a = some i ∧ Restored program i j := by
  obtain ⟨ps, hpaired, hrestored⟩ := paired_restore hl h
  have hmem : (k, j) ∈ ps.map Prod.snd := by
    rw [← hpaired.right]
    exact (Roster.mem_entries_iff (sound_restore h).roster).mpr hj
  obtain ⟨p, hp, hpair⟩ := List.mem_map.mp hmem
  have hleft : l.instance? p.1.1 = some p.1.2 := by
    rw [instance?, ← Roster.mem_entries_iff hl.roster, hpaired.left]
    exact List.mem_map_of_mem hp
  have hright : p.2.2 = j := by rw [hpair]
  exact ⟨p.1.1, p.1.2, hleft, hright ▸ hrestored p hp⟩

theorem tick_restore {l l' : Level} {program : Program} {config : Config}
    (h : restore program l.snapshot config = .ok l') : l'.tick = l.tick := by
  obtain ⟨-, memory, instances, -, -, rfl⟩ := restore_eq_ok h
  rw [foldl_addRestored_eq]
  rfl

end Level

end LevelScript
