import LevelScript.Session.Basic
import Mathlib.Tactic.Common

/-!
# What happens to waiting requests

An entry is filed for a map, all entries of a map are taken together, and each is handled. A
history of these tells what waits, and for every map it balances: what was filed is what was
handled, followed by what waits.

* `DeferredQueue.after`: what an event makes of the queues.
* `Ledger`: a history that balances with the queues it leads to.
-/

namespace LevelScript

open Std

/-- Something that happens to entries that wait. -/
inductive Deferral where
  | filed (e : DeferredEntry)
  /-- All entries of a map are taken out. -/
  | taken (map : Int32) (entries : List DeferredEntry)
  /-- An entry is handled on a map. -/
  | handled (map : Int32) (e : DeferredEntry)
  deriving DecidableEq, Repr

namespace Deferral

/-- What waits for a map after an event. -/
def since (m : Int32) (waiting : List DeferredEntry) : Deferral → List DeferredEntry
  | filed e => if e.map = m then waiting ++ [e] else waiting
  | taken map _ => if map = m then [] else waiting
  | handled _ _ => waiting

/-- What was filed for a map since its entries were taken the last time. -/
def filedSince (m : Int32) (ds : List Deferral) : List DeferredEntry := ds.foldl (since m) []

def filed? (m : Int32) : Deferral → Option DeferredEntry
  | filed e => if e.map = m then some e else none
  | _ => none

def handled? (m : Int32) : Deferral → Option DeferredEntry
  | handled map e => if map = m then some e else none
  | _ => none

/-- All that was filed for a map. -/
def filedFor (m : Int32) (ds : List Deferral) : List DeferredEntry := ds.filterMap (filed? m)

/-- All that was handled on a map. -/
def handledOn (m : Int32) (ds : List Deferral) : List DeferredEntry := ds.filterMap (handled? m)

section

variable (m : Int32) (ds ds' : List Deferral) (es : List DeferredEntry)

theorem filedFor_append : filedFor m (ds ++ ds') = filedFor m ds ++ filedFor m ds' :=
  List.filterMap_append

theorem handledOn_append : handledOn m (ds ++ ds') = handledOn m ds ++ handledOn m ds' :=
  List.filterMap_append

theorem filedSince_append : filedSince m (ds ++ ds') = ds'.foldl (since m) (filedSince m ds) :=
  List.foldl_append

theorem filedFor_files : filedFor m (es.map .filed) = es.filter (·.map = m) := by
  induction es with
  | nil => rfl
  | cons e rest ih =>
    unfold filedFor at ih ⊢
    by_cases he : e.map = m
    · simp [filed?, he, ih]
    · simp [filed?, he, ih]

theorem handledOn_files : handledOn m (es.map .filed) = [] := by
  unfold handledOn
  rw [List.filterMap_map]
  exact List.filterMap_eq_nil_iff.mpr fun _ _ => rfl

theorem filedFor_handles (map : Int32) : filedFor m (es.map (.handled map)) = [] := by
  unfold filedFor
  rw [List.filterMap_map]
  exact List.filterMap_eq_nil_iff.mpr fun _ _ => rfl

theorem handledOn_handles (map : Int32) :
    handledOn m (es.map (.handled map)) = if map = m then es else [] := by
  unfold handledOn
  rw [List.filterMap_map]
  split
  · rename_i hm
    have hsome : (handled? m ∘ handled map) = some := by
      funext e
      simp [handled?, hm]
    rw [hsome, List.filterMap_some]
  · rename_i hm
    refine List.filterMap_eq_nil_iff.mpr fun e _ => ?_
    simp [handled?, hm]

theorem since_handles (map : Int32) (waiting : List DeferredEntry) :
    (es.map (.handled map)).foldl (since m) waiting = waiting := by
  rw [List.foldl_map]
  induction es with
  | nil => rfl
  | cons e rest ih => exact ih

end

end Deferral

/-! ## Queues -/

namespace DeferredQueue

variable (q : DeferredQueue)

theorem waiting_empty (m : Int32) : empty.waiting m = [] := ExtTreeMap.getD_empty

theorem waiting_push (e : DeferredEntry) (m : Int32) :
    (q.push e).waiting m = if e.map = m then q.waiting m ++ [e] else q.waiting m := by
  unfold push waiting
  rw [ExtTreeMap.getD_insert]
  by_cases he : e.map = m
  · subst he
    rw [if_pos ReflCmp.compare_self, if_pos rfl]
  · rw [if_neg (mt LawfulEqCmp.compare_eq_iff_eq.mp he), if_neg he]

theorem waiting_drop (map m : Int32) :
    (q.drop map).waiting m = if map = m then [] else q.waiting m := by
  unfold drop waiting
  rw [ExtTreeMap.getD_erase]
  by_cases hm : map = m
  · rw [if_pos (LawfulEqCmp.compare_eq_iff_eq.mpr hm), if_pos hm]
  · rw [if_neg (mt LawfulEqCmp.compare_eq_iff_eq.mp hm), if_neg hm]

/-- The queues after an event. -/
def after : Deferral → DeferredQueue
  | .filed e => q.push e
  | .taken map _ => q.drop map
  | .handled _ _ => q

theorem waiting_after (d : Deferral) (m : Int32) :
    (q.after d).waiting m = Deferral.since m (q.waiting m) d := by
  cases d with
  | filed e => exact waiting_push q e m
  | taken map entries => exact waiting_drop q map m
  | handled map e => rfl

theorem waiting_afterAll (ds : List Deferral) (m : Int32) :
    (ds.foldl after q).waiting m = ds.foldl (Deferral.since m) (q.waiting m) := by
  induction ds generalizing q with
  | nil => rfl
  | cons d rest ih => rw [List.foldl_cons, List.foldl_cons, ih, waiting_after]

/-- Entries that are filed stand behind those that wait. -/
theorem waiting_files (es : List DeferredEntry) (m : Int32) :
    ((es.map Deferral.filed).foldl after q).waiting m = q.waiting m ++ es.filter (·.map = m) := by
  induction es generalizing q with
  | nil => simp
  | cons e rest ih =>
    rw [List.map_cons, List.foldl_cons, ih]
    show (q.push e).waiting m ++ _ = _
    rw [waiting_push]
    by_cases he : e.map = m
    · simp [he]
    · simp [he]

end DeferredQueue

/-! ## Histories that balance -/

/-- A history that leads from no entries to the queues `q`. -/
structure Ledger (ds : List Deferral) (q : DeferredQueue) : Prop where
  waiting : ∀ m, q.waiting m = Deferral.filedSince m ds
  balance : ∀ m, Deferral.filedFor m ds = Deferral.handledOn m ds ++ q.waiting m
  /-- What is taken is what was filed since it was last taken, and is handled at once. -/
  taken : ∀ before map entries rest, ds = before ++ .taken map entries :: rest →
    entries = Deferral.filedSince map before ∧
      ∃ later, rest = entries.map (.handled map) ++ later

namespace Ledger

open Deferral

variable {ds : List Deferral} {q : DeferredQueue}

theorem empty : Ledger [] .empty where
  waiting := DeferredQueue.waiting_empty
  balance m := (DeferredQueue.waiting_empty m).symm
  taken before map entries rest h := by simp at h

/-- A member that is not in the second part splits the first. -/
theorem split_left {α : Type} {xs ys before rest : List α} {x : α} (hx : x ∉ ys)
    (h : xs ++ ys = before ++ x :: rest) :
    ∃ more, xs = before ++ x :: more ∧ rest = more ++ ys := by
  rcases List.append_eq_append_iff.mp h with ⟨more, -, hys⟩ | ⟨more, hxs, hrest⟩
  · exact absurd (by simp [hys]) hx
  · cases more with
    | nil =>
      rw [List.nil_append] at hrest
      exact absurd (hrest ▸ List.mem_cons_self) hx
    | cons y more =>
      rw [List.cons_append, List.cons.injEq] at hrest
      obtain ⟨rfl, hrest⟩ := hrest
      exact ⟨more, hxs, hrest⟩

/-- Entries are filed. -/
theorem files (h : Ledger ds q) (es : List DeferredEntry) :
    Ledger (ds ++ es.map .filed) ((es.map filed).foldl DeferredQueue.after q) where
  waiting m := by
    rw [DeferredQueue.waiting_afterAll, filedSince_append, h.waiting]
  balance m := by
    rw [filedFor_append, handledOn_append, filedFor_files, handledOn_files, List.append_nil,
      DeferredQueue.waiting_files, h.balance, List.append_assoc]
  taken before map entries rest hsplit := by
    obtain ⟨more, hds, rfl⟩ := split_left (by simp) hsplit
    obtain ⟨hentries, later, rfl⟩ := h.taken before map entries more hds
    exact ⟨hentries, later ++ es.map filed, List.append_assoc ..⟩

/-- The entries of a map are taken and handled. -/
theorem hand (h : Ledger ds q) (map : Int32) :
    Ledger (ds ++ [.taken map (q.waiting map)] ++ (q.waiting map).map (.handled map))
      (q.drop map) where
  waiting m := by
    rw [filedSince_append, since_handles, filedSince_append, DeferredQueue.waiting_drop, h.waiting]
    rfl
  balance m := by
    have hfiled : filedFor m [.taken map (q.waiting map)] = [] := rfl
    have hhandled : handledOn m [.taken map (q.waiting map)] = [] := rfl
    simp only [filedFor_append, handledOn_append, filedFor_handles, handledOn_handles, hfiled,
      hhandled, List.append_nil, DeferredQueue.waiting_drop, h.balance]
    by_cases hm : map = m
    · subst hm
      simp
    · simp [hm]
  taken before map' entries rest hsplit := by
    obtain ⟨more, hds, rfl⟩ := split_left (by simp) hsplit
    rcases List.eq_nil_or_concat more with rfl | ⟨more, last, rfl⟩
    · -- The entries are taken now.
      obtain ⟨rfl, heq⟩ := List.append_inj' hds rfl
      obtain ⟨rfl, rfl⟩ := Deferral.taken.inj (List.singleton_inj.mp heq)
      exact ⟨h.waiting map, [], by simp⟩
    · rw [List.concat_eq_append, ← List.cons_append, ← List.append_assoc] at hds
      obtain ⟨hold, -⟩ := List.append_inj' hds rfl
      obtain ⟨hentries, later, rfl⟩ := h.taken before map' entries more hold
      refine ⟨hentries, later ++ last :: (q.waiting map).map (.handled map), ?_⟩
      simp

end Ledger

end LevelScript
