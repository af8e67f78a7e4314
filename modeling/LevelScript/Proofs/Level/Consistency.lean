import LevelScript.Proofs.Snapshot.Restore

/-!
# Consistent levels

Between calls, the cells, the links, the free list and the registry of a level fit together, and
nothing is left on the operand stack or in the queues.

* `Level.Consistent` says so about cells and links as they are.
* `consistent_of_reachable`: it holds of every level that calls lead to, from a start or from
  any snapshot that was restored.
-/

namespace LevelScript

/-! ## Nothing is left to do after a call -/

/-- Both queues are empty. -/
def Level.Quiet (l : Level) : Prop := l.pending = [] ∧ l.ready = []

namespace Simulation

variable {ω : Type}

theorem quiet_remove {s : Simulation ω} (hq : s.level.Quiet) (h : Handle) :
    (s.remove h).level.Quiet := by
  rw [level_remove, Level.remove_keeps]
  exact hq

theorem quiet_reap {s : Simulation ω} (hq : s.level.Quiet) : s.reap.level.Quiet := by
  unfold reap
  split
  · have hfold : ∀ (handles : List Handle) (t : Simulation ω), t.level.Quiet →
        (handles.foldl remove t).level.Quiet := by
      intro handles
      induction handles with
      | nil => exact fun _ ht => ht
      | cons h rest ih => exact fun t ht => ih _ (quiet_remove ht h)
    exact hfold _ _ hq
  · exact hq

variable [Host ω]

/-- Settling ends with nothing left to do. -/
theorem quiet_settle (left : Nat) (s : Simulation ω) : (s.settle left).2.level.Quiet := by
  fun_induction settle left s with
  | case1 left s r rest hp _ ih => exact ih
  | case2 left s hp hr => exact quiet_reap ⟨hp, hr⟩
  | case3 s hp h rest hr _ ih => exact ih
  | case4 s hp h rest hr left ih => exact ih

theorem quiet_pass {s : Simulation ω} (hq : s.level.Quiet) (handles : List Handle) :
    (s.pass handles).level.Quiet :=
  pass_induct (P := fun _ t => t.level.Quiet) hq
    fun h _ left t _ => quiet_settle left (t.visit h)

theorem quiet_run {s : Simulation ω} (hq : s.level.Quiet) (op : Operation) :
    (op.run s).2.level.Quiet := by
  refine op.run_of_settled (P := fun s => s.level.Quiet) quiet_settle (fun _ _ ht => ht)
    (fun _ ht => ht) hq fun hop a ha => ?_
  cases op with
  | putFirst | putLast =>
    obtain ⟨h, rfl⟩ := ha
    exact hq
  | setStatus script status =>
    cases ha
    exact ⟨(Level.pending_setStatus _ _ _).trans hq.1, (Level.ready_setStatus _ _ _).trans hq.2⟩
  | setVar | setElement =>
    cases ha
    exact hq
  | terminateAll =>
    cases ha
    exact ⟨rfl, rfl⟩
  | _ => cases hop

end Simulation

/-! ## Between calls -/

namespace Level

/-- What holds of a level between calls. -/
structure AtRest (l : Level) : Prop where
  sound : l.Sound
  quiet : l.Quiet
  stack : l.stack = #[]

theorem atRest_start (program : Program) (map : Int32) (config : Config) :
    (start program map config).AtRest :=
  ⟨sound_start program map config, ⟨rfl, rfl⟩, rfl⟩

theorem AtRest.run {ω : Type} [Host ω] {s : Simulation ω} (h : s.level.AtRest) (op : Operation) :
    (op.run s).2.level.AtRest := by
  refine ⟨?_, Simulation.quiet_run h.quiet op, ?_⟩
  · rw [op.run_eq_acts s]
    exact Simulation.sound_actAll h.sound _
  · rw [op.run_eq_acts s]
    exact (Simulation.stays_actAll s _).stack h.stack

theorem atRest_restore {program : Program} {snapshot : Snapshot} {config : Config} {l : Level}
    (h : restore program snapshot config = .ok l) : l.AtRest := by
  refine ⟨sound_restore h, ?_, ?_⟩
  all_goals
    obtain ⟨-, memory, instances, -, -, rfl⟩ := restore_eq_ok h
    rw [foldl_addRestored_eq]
  · exact ⟨rfl, rfl⟩
  · rfl

end Level

/-! ## Cells and links as they are -/

namespace Roster

/-- Following the links forth from a cell visits the cells in a list and then ends. -/
inductive Leads (cells : Array Cell) : Option Nat → List Nat → Prop
  | nil : Leads cells none []
  | cons {i : Nat} {c : Cell} {rest : List Nat} (cell : cells[i]? = some c)
      (next : Leads cells c.next rest) : Leads cells (some i) (i :: rest)

/-- The cell `i` is linked and has the cell `j` behind it. -/
def Before (r : Roster) (i j : Nat) : Prop :=
  ∃ c, r.cells[i]? = some c ∧ c.linked = true ∧ c.next = some j

/-- The cell `j` is linked and has the cell `i` in front of it. -/
def After (r : Roster) (i j : Nat) : Prop :=
  ∃ c, r.cells[j]? = some c ∧ c.linked = true ∧ c.prev = some i

theorem Chain.leads {cells : Array Cell} {before : Option Nat} {xs : List Nat}
    (h : Chain cells before xs none) : Leads cells xs.head? xs := by
  induction xs generalizing before with
  | nil => exact .nil
  | cons i rest ih =>
    obtain ⟨c, hc, hlink⟩ := Option.map_eq_some_iff.mp h.1
    have hnext : c.next = rest.head? := by simpa using congrArg Prod.snd hlink
    exact .cons hc (hnext ▸ ih h.2)

variable {r : Roster}

/-- Linked cells are those in the order of turns. -/
theorem mem_order_iff_linked (hs : r.Sound) (i : Nat) :
    i ∈ r.order ↔ ∃ c, r.cells[i]? = some c ∧ c.linked = true := by
  rw [hs.mem_order]
  constructor
  · rintro ⟨g, inst, ht⟩
    obtain ⟨c, hc, htag⟩ := Option.map_eq_some_iff.mp ht
    simp only [Prod.mk.injEq] at htag
    exact ⟨c, hc, htag.2.2⟩
  · rintro ⟨c, hc, hlinked⟩
    have ht : r.tagAt i = some (c.generation, c.content, c.linked) := by simp [tagAt, hc]
    obtain ⟨inst, hinst⟩ := Option.isSome_iff_exists.mp ((hs.content _ _ _ _ ht).symm.trans hlinked)
    exact ⟨c.generation, inst, by rw [ht, hinst, hlinked]⟩

theorem before_iff (hs : r.Sound) (i j : Nat) :
    r.Before i j ↔ ∃ xs ys, r.order = xs ++ i :: j :: ys := by
  constructor
  · rintro ⟨c, hc, hlinked, hnext⟩
    obtain ⟨xs, ys, hsplit⟩ := List.append_of_mem ((mem_order_iff_linked hs i).mpr ⟨c, hc, hlinked⟩)
    have hchain := hs.spells.chain
    rw [hsplit] at hchain
    have hhead := hchain.next_eq
    rw [hc, Option.bind_some, hnext, Option.or_none] at hhead
    obtain ⟨rest, rfl⟩ : ∃ rest, ys = j :: rest := by
      cases ys <;> simp_all
    exact ⟨xs, rest, hsplit⟩
  · rintro ⟨xs, ys, hsplit⟩
    have hmem : i ∈ r.order := by simp [hsplit]
    obtain ⟨c, hc, hlinked⟩ := (mem_order_iff_linked hs i).mp hmem
    have hchain := hs.spells.chain
    rw [hsplit] at hchain
    have hnext := hchain.next_eq
    rw [hc] at hnext
    exact ⟨c, hc, hlinked, hnext⟩

theorem after_iff (hs : r.Sound) (i j : Nat) :
    r.After i j ↔ ∃ xs ys, r.order = xs ++ i :: j :: ys := by
  constructor
  · rintro ⟨c, hc, hlinked, hprev⟩
    obtain ⟨xs, ys, hsplit⟩ := List.append_of_mem ((mem_order_iff_linked hs j).mpr ⟨c, hc, hlinked⟩)
    have hchain := hs.spells.chain
    rw [hsplit] at hchain
    have hlast := hchain.prev_eq
    rw [hc, Option.bind_some, hprev, Option.or_none] at hlast
    obtain ⟨front, rfl⟩ := List.getLast?_eq_some_iff.mp hlast.symm
    exact ⟨front, ys, by rw [hsplit, List.append_assoc]; rfl⟩
  · rintro ⟨xs, ys, hsplit⟩
    have hmem : j ∈ r.order := by simp [hsplit]
    obtain ⟨c, hc, hlinked⟩ := (mem_order_iff_linked hs j).mp hmem
    have hchain := hs.spells.chain
    have hsplit' : r.order = (xs ++ [i]) ++ j :: ys := by simp [hsplit]
    rw [hsplit'] at hchain
    have hprev := hchain.prev_eq
    rw [hc] at hprev
    exact ⟨c, hc, hlinked, by simpa using hprev⟩

end Roster

namespace Level

/-- Cells, links, free list and registry fit together, and nothing is left to do. -/
structure Consistent (l : Level) : Prop where
  /-- Following the links forth from the head visits every linked cell once and ends at the
  tail. -/
  walk : ∃ order, Roster.Leads l.roster.cells l.roster.head order ∧ order.Nodup ∧
    order.getLast? = l.roster.tail ∧
    ∀ i, i ∈ order ↔ ∃ c, l.roster.cells[i]? = some c ∧ c.linked = true
  /-- The links back are the inverse of the links forth. -/
  inverse : ∀ i j, l.roster.Before i j ↔ l.roster.After i j
  content : ∀ (i : Nat) (c : Cell), l.roster.cells[i]? = some c → c.linked = true →
    c.content.isSome
  free_nodup : l.roster.free.Nodup
  mem_free : ∀ i, i ∈ l.roster.free ↔ ∃ c, l.roster.cells[i]? = some c ∧ c.linked = false
  /-- The registry has one entry for a script, which leads to an instance of that script. -/
  keys : (l.tracked.map Prod.fst).Nodup
  tracked : ∀ n h, (n, h) ∈ l.tracked → ∃ c i, l.roster.cells[h.index]? = some c ∧
    c.linked = true ∧ c.generation = h.generation ∧ c.content = some i ∧ i.number = n
  stack : l.stack = #[]
  pending : l.pending = []
  ready : l.ready = []

theorem AtRest.consistent {l : Level} (h : l.AtRest) : l.Consistent := by
  have hs := h.sound.roster
  have htag : ∀ {i : Nat} {c : Cell}, l.roster.cells[i]? = some c →
      l.roster.tagAt i = some (c.generation, c.content, c.linked) := by
    intro i c hc
    simp [Roster.tagAt, hc]
  refine ⟨⟨l.roster.order, ?_, hs.spells.nodup, hs.spells.tail.symm,
    Roster.mem_order_iff_linked hs⟩, ?_, ?_, hs.free_nodup, ?_, h.sound.keys, ?_, h.stack,
    h.quiet.1, h.quiet.2⟩
  · rw [hs.spells.head]
    exact hs.spells.chain.leads
  · intro i j
    rw [Roster.before_iff hs, Roster.after_iff hs]
  · intro i c hc hlinked
    exact (hs.content _ _ _ _ (htag hc)).symm.trans hlinked
  · intro i
    rw [hs.mem_free]
    constructor
    · rintro ⟨g, ht⟩
      obtain ⟨c, hc, hfields⟩ := Option.map_eq_some_iff.mp ht
      simp only [Prod.mk.injEq] at hfields
      exact ⟨c, hc, hfields.2.2⟩
    · rintro ⟨c, hc, hlinked⟩
      have hnone : c.content.isSome = false := (hs.content _ _ _ _ (htag hc)).symm.trans hlinked
      have hcontent : c.content = none := by simpa using hnone
      exact ⟨c.generation, by rw [htag hc, hlinked, hcontent]⟩
  · intro n k hk
    obtain ⟨i, hi, hn⟩ := h.sound.tracked n k hk
    obtain ⟨c, hc, hfields⟩ := Option.map_eq_some_iff.mp (Roster.instance?_eq_some.mp hi)
    simp only [Prod.mk.injEq] at hfields
    exact ⟨c, i, hc, hfields.2.2, hfields.1, hfields.2.1, hn⟩

/-- A level as it starts, or as it is restored from some snapshot. -/
inductive Fresh : Level → Prop
  | start (program : Program) (map : Int32) (config : Config) : Fresh (start program map config)
  | restore {program : Program} {snapshot : Snapshot} {config : Config} {l : Level}
      (h : restore program snapshot config = .ok l) : Fresh l

theorem Fresh.atRest {l : Level} (h : l.Fresh) : l.AtRest := by
  cases h with
  | start program map config => exact atRest_start program map config
  | restore h => exact atRest_restore h

theorem Reachable.play {ω : Type} [Host ω] {origin : Level → Prop} {allowed : Operation → Prop}
    {s : Simulation ω} (h : Reachable origin allowed s.level) {ops : List Operation}
    (hops : ∀ op ∈ ops, allowed op) : Reachable origin allowed (s.play ops).2.level := by
  induction ops generalizing s with
  | nil => exact h
  | cons op ops ih =>
    exact ih (h.run (hops op List.mem_cons_self)) fun o ho => hops o (List.mem_cons_of_mem _ ho)

theorem Reachable.atRest {allowed : Operation → Prop} {l : Level}
    (h : Reachable Fresh allowed l) : l.AtRest := by
  induction h with
  | origin h => exact h.atRest
  | run _ _ ih => exact ih.run _

/-- **Levels are consistent between calls**, whatever was called with whatever session and
host before. -/
theorem consistent_of_reachable {l : Level} (h : Reachable Fresh (fun _ => True) l) :
    l.Consistent :=
  h.atRest.consistent

/-- Two scripts start, change places, and one of them is ended before both take a turn. -/
theorem consistent_after_two_starts :
    let script (number : Int32) : Script := { (default : Script) with number := number }
    let program : Program := { (default : Program) with scripts := [script 1, script 2] }
    let s : Simulation StillWorld := ⟨start program 1 default, default, default, default⟩
    let ops : List Operation :=
      [.launch { script := 1, deferStart := true }, .launch { script := 2, deferStart := true },
        .putFirst (.script 2), .setStatus 1 .pleaseRemove, .tick]
    Reachable Fresh (fun _ => True) (s.play ops).2.level ∧ (s.play ops).2.level.Consistent := by
  intro script program s ops
  have hs : Reachable Fresh (fun _ => True) s.level := .origin (.start program 1 default)
  have h : Reachable Fresh (fun _ => True) (s.play ops).2.level := hs.play fun _ _ => trivial
  exact ⟨h, consistent_of_reachable h⟩

end Level

end LevelScript
