import Mathlib.Data.List.Perm.Subperm
import Mathlib.Tactic.Common
import LevelScript.Level.Roster

/-!
# Links of a roster

The order of turns is a doubly linked list through the cells. `Roster.Spells r xs` says that
following the links from the head gives the cells `xs`, each once, and that the links back are
their exact inverse.

* `Chain` is a stretch of such a list between two neighbours; `chain_append` joins and splits it.
* `Spells.order_eq`: the order a roster computes is the list that its links spell.
* `Spells.detach`, `Spells.attachLast` and `Spells.attachFirst` say what the three edits of the
  links do to the list.
-/

namespace LevelScript.Roster

/-- The links of a cell: back and forth. -/
def linkAt (cells : Array Cell) (i : Nat) : Option (Option Nat × Option Nat) :=
  (cells[i]?).map fun c => (c.prev, c.next)

/-- The cells `xs` are linked one after the other, with `before` and `after` at their ends. -/
def Chain (cells : Array Cell) (before : Option Nat) : List Nat → Option Nat → Prop
  | [], _ => True
  | i :: rest, after =>
    linkAt cells i = some (before, rest.head?.or after) ∧ Chain cells (some i) rest after

section Chain

variable {cells cells' : Array Cell} {before after : Option Nat}

theorem chain_append (xs ys : List Nat) :
    Chain cells before (xs ++ ys) after ↔
      Chain cells before xs (ys.head?.or after) ∧ Chain cells (xs.getLast?.or before) ys after := by
  induction xs generalizing before with
  | nil => simp [Chain]
  | cons i xs ih =>
    have hlast : (i :: xs).getLast?.or before = xs.getLast?.or (some i) := by
      cases h : xs.getLast? <;> simp [List.getLast?_cons, h]
    simp only [List.cons_append, Chain, List.head?_append, Option.or_assoc, ih, hlast, and_assoc]

theorem chain_singleton (i : Nat) :
    Chain cells before [i] after ↔ linkAt cells i = some (before, after) := by
  simp [Chain]

theorem Chain.congr {xs : List Nat} (h : Chain cells before xs after)
    (he : ∀ i ∈ xs, linkAt cells' i = linkAt cells i) : Chain cells' before xs after := by
  induction xs generalizing before with
  | nil => trivial
  | cons i xs ih =>
    refine ⟨?_, ih h.2 fun j hj => he j (List.mem_cons_of_mem _ hj)⟩
    rw [he i List.mem_cons_self]
    exact h.1

theorem Chain.lt_size {xs : List Nat} (h : Chain cells before xs after) :
    ∀ i ∈ xs, i < cells.size := by
  induction xs generalizing before with
  | nil => simp
  | cons i xs ih =>
    intro j hj
    rcases List.mem_cons.mp hj with rfl | hj
    · by_contra hlt
      have hnone : cells[j]? = none := Array.getElem?_eq_none (Nat.le_of_not_lt hlt)
      have := h.1
      simp [linkAt, hnone] at this
    · exact ih h.2 j hj

/-- The next cell of a linked one is the one behind it in the list. -/
theorem Chain.next_eq {xs ys : List Nat} {i : Nat}
    (h : Chain cells before (xs ++ i :: ys) after) :
    (cells[i]?).bind Cell.next = ys.head?.or after := by
  rw [chain_append] at h
  have hi := h.2.1
  obtain ⟨c, hc, hlink⟩ := Option.map_eq_some_iff.mp hi
  simp only [Prod.mk.injEq] at hlink
  rw [hc, Option.bind_some, hlink.2]

theorem Chain.prev_eq {xs ys : List Nat} {i : Nat}
    (h : Chain cells before (xs ++ i :: ys) after) :
    (cells[i]?).bind Cell.prev = xs.getLast?.or before := by
  rw [chain_append] at h
  have hi := h.2.1
  obtain ⟨c, hc, hlink⟩ := Option.map_eq_some_iff.mp hi
  simp only [Prod.mk.injEq] at hlink
  rw [hc, Option.bind_some, hlink.1]

end Chain

theorem linkAt_modify (cells : Array Cell) (i j : Nat) (f : Cell → Cell) :
    linkAt (cells.modify i f) j =
      if i = j then (cells[j]?).map fun c => ((f c).prev, (f c).next) else linkAt cells j := by
  unfold linkAt
  rw [Array.getElem?_modify]
  split
  · rw [Option.map_map]
    rfl
  · rfl

theorem linkAt_modify_of_ne {cells : Array Cell} {i j : Nat} (f : Cell → Cell) (h : i ≠ j) :
    linkAt (cells.modify i f) j = linkAt cells j := by
  rw [linkAt_modify, if_neg h]

/-- A change that leaves both links of a cell alone does not show. -/
theorem linkAt_modify_of_keeps {cells : Array Cell} (i j : Nat) {f : Cell → Cell}
    (hf : ∀ c, (f c).prev = c.prev ∧ (f c).next = c.next) :
    linkAt (cells.modify i f) j = linkAt cells j := by
  rw [linkAt_modify]
  split
  · unfold linkAt
    congr 1
    funext c
    rw [(hf c).1, (hf c).2]
  · rfl

/-! ## Edits at the ends of a chain -/

section Ends

variable {r : Roster} {before after : Option Nat} {xs : List Nat}

theorem linkAt_linkNext_of_notMem {j : Nat} (hj : j ∉ xs) (next : Option Nat) :
    linkAt (r.linkNext xs.getLast? next).cells j = linkAt r.cells j := by
  cases h : xs.getLast? with
  | none => rfl
  | some t =>
    refine linkAt_modify_of_ne _ ?_
    rintro rfl
    exact hj (List.mem_of_getLast? h)

theorem linkAt_linkPrev_of_notMem {j : Nat} (hj : j ∉ xs) (prev : Option Nat) :
    linkAt (r.linkPrev xs.head? prev).cells j = linkAt r.cells j := by
  cases h : xs.head? with
  | none => rfl
  | some t =>
    refine linkAt_modify_of_ne _ ?_
    rintro rfl
    exact hj (List.mem_of_head? h)

/-- Setting what follows the last cell of a chain. -/
theorem chain_linkNext (hnd : xs.Nodup) (h : Chain r.cells before xs after) (next : Option Nat) :
    Chain (r.linkNext xs.getLast? next).cells before xs next := by
  rcases List.eq_nil_or_concat xs with rfl | ⟨ys, t, rfl⟩
  · trivial
  · simp only [List.concat_eq_append] at hnd h ⊢
    have ht : t ∉ ys := fun hmem => (List.nodup_append.mp hnd).2.2 t hmem t (by simp) rfl
    rw [List.getLast?_append_of_ne_nil _ (by simp), List.getLast?_singleton]
    rw [chain_append] at h ⊢
    refine ⟨h.1.congr fun i hi => linkAt_modify_of_ne _ (by rintro rfl; exact ht hi), ?_⟩
    obtain ⟨c, hc, hlink⟩ := Option.map_eq_some_iff.mp h.2.1
    simp only [Prod.mk.injEq] at hlink
    rw [chain_singleton, linkNext, update, linkAt_modify, if_pos rfl, hc]
    simp [hlink.1]

/-- Setting what precedes the first cell of a chain. -/
theorem chain_linkPrev (hnd : xs.Nodup) (h : Chain r.cells before xs after) (prev : Option Nat) :
    Chain (r.linkPrev xs.head? prev).cells prev xs after := by
  cases xs with
  | nil => trivial
  | cons t ys =>
    have ht : t ∉ ys := (List.nodup_cons.mp hnd).1
    refine ⟨?_, h.2.congr fun i hi => linkAt_modify_of_ne _ (by rintro rfl; exact ht hi)⟩
    obtain ⟨c, hc, hlink⟩ := Option.map_eq_some_iff.mp h.1
    simp only [Prod.mk.injEq] at hlink
    rw [List.head?_cons, linkPrev, update, linkAt_modify, if_pos rfl, hc]
    simp [hlink.2]

theorem head_linkNext (next : Option Nat) :
    (r.linkNext xs.getLast? next).head = if xs = [] then next else r.head := by
  cases xs with
  | nil => rfl
  | cons t ys => simp [List.getLast?_cons, linkNext, update]

theorem tail_linkPrev (prev : Option Nat) :
    (r.linkPrev xs.head? prev).tail = if xs = [] then prev else r.tail := by
  cases xs <;> rfl

@[simp] theorem tail_linkNext (index next : Option Nat) :
    (r.linkNext index next).tail = r.tail := by
  cases index <;> rfl

@[simp] theorem head_linkPrev (index prev : Option Nat) :
    (r.linkPrev index prev).head = r.head := by
  cases index <;> rfl

end Ends

/-! ## The list that the links spell -/

/-- Following the links of a roster from either end gives the cells `xs`. -/
structure Spells (r : Roster) (xs : List Nat) : Prop where
  nodup : xs.Nodup
  head : r.head = xs.head?
  tail : r.tail = xs.getLast?
  chain : Chain r.cells none xs none

namespace Spells

variable {r r' : Roster} {xs ys : List Nat} {i : Nat}

theorem lt_size (h : r.Spells xs) (hi : i ∈ xs) : i < r.cells.size := h.chain.lt_size i hi

theorem length_le (h : r.Spells xs) : xs.length ≤ r.cells.size := by
  have hsub : xs ⊆ List.range r.cells.size := by
    intro i hi
    exact List.mem_range.mpr (h.lt_size hi)
  have := (h.nodup.subperm hsub).length_le
  simpa using this

theorem follow_eq {before : Option Nat} (h : Chain r.cells before ys none) :
    ∀ count, ys.length ≤ count → r.follow count ys.head? = ys := by
  induction ys generalizing before with
  | nil => intro count _; cases count <;> rfl
  | cons i ys ih =>
    intro count hcount
    obtain ⟨count, rfl⟩ : ∃ n, count = n + 1 := ⟨count - 1, by simp at hcount; omega⟩
    have hfront : Chain r.cells before ([] ++ i :: ys) none := h
    have hnext := hfront.next_eq
    rw [Option.or_none] at hnext
    simp only [List.head?_cons, follow, hnext]
    rw [ih h.2 count (by simpa using hcount)]

/-- The order that is computed is the list that the links spell. -/
theorem order_eq (h : r.Spells xs) : r.order = xs := by
  unfold order
  rw [h.head]
  exact follow_eq h.chain _ h.length_le

/-- A change that leaves links alone keeps the list. -/
theorem congr (h : r.Spells xs) (hhead : r'.head = r.head) (htail : r'.tail = r.tail)
    (hlink : ∀ i, linkAt r'.cells i = linkAt r.cells i) : r'.Spells xs where
  nodup := h.nodup
  head := hhead.trans h.head
  tail := htail.trans h.tail
  chain := h.chain.congr fun i _ => hlink i

/-- Taking a cell out of the list joins what is before it and what is behind it. -/
theorem detach (h : r.Spells (xs ++ i :: ys)) : (r.detach i).Spells (xs ++ ys) := by
  obtain ⟨hnd, hhead, htail, hchain⟩ := h
  have hprev : (r.cells[i]?).bind Cell.prev = xs.getLast? := by
    rw [hchain.prev_eq, Option.or_none]
  have hnext : (r.cells[i]?).bind Cell.next = ys.head? := by
    rw [hchain.next_eq, Option.or_none]
  obtain ⟨hndx, hndi, hdis⟩ := List.nodup_append.mp hnd
  have hix : i ∉ xs := fun hmem => hdis i hmem i (by simp) rfl
  obtain ⟨hiy, hndy⟩ := List.nodup_cons.mp hndi
  have hxy : ∀ j ∈ xs, j ∉ ys := fun j hj hj' => hdis j hj j (by simp [hj']) rfl
  rw [chain_append] at hchain
  -- the two stretches around the cell, once its own links are cleared
  have hxs : Chain (r.update i ({ · with prev := none, next := none })).cells none xs (some i) :=
    hchain.1.congr fun j hj => linkAt_modify_of_ne _ (by rintro rfl; exact hix hj)
  have hys : Chain (r.update i ({ · with prev := none, next := none })).cells (some i) ys none :=
    hchain.2.2.congr fun j hj => linkAt_modify_of_ne _ (by rintro rfl; exact hiy hj)
  unfold Roster.detach
  rw [hprev, hnext]
  refine ⟨?_, ?_, ?_, ?_⟩
  · exact List.nodup_append.mpr ⟨hndx, hndy, fun j hj k hk hjk => hxy j hj (hjk ▸ hk)⟩
  · rw [head_linkPrev, head_linkNext]
    cases xs with
    | nil => simp
    | cons j xs => simpa [update] using hhead
  · rw [tail_linkPrev, tail_linkNext]
    rcases List.eq_nil_or_concat ys with rfl | ⟨zs, t, rfl⟩
    · simp
    · simpa [update, List.getLast?_append, List.getLast?_cons] using htail
  · rw [chain_append, Option.or_none, Option.or_none]
    constructor
    · refine (chain_linkNext hndx hxs ys.head?).congr fun j hj => ?_
      exact linkAt_linkPrev_of_notMem (hxy j hj) _
    · refine chain_linkPrev hndy (hys.congr fun j hj => ?_) xs.getLast?
      exact linkAt_linkNext_of_notMem (fun hmem => hxy j hmem hj) _

/-- A cell put at the end comes last. -/
theorem attachLast (h : r.Spells xs) (hi : i < r.cells.size) (hnot : i ∉ xs) :
    (r.attachLast i).Spells (xs ++ [i]) := by
  obtain ⟨hnd, hhead, htail, hchain⟩ := h
  have hxs : Chain (r.update i ({ · with prev := r.tail, next := none })).cells none xs none :=
    hchain.congr fun j hj => linkAt_modify_of_ne _ (by rintro rfl; exact hnot hj)
  have hown : linkAt (r.update i ({ · with prev := r.tail, next := none })).cells i =
      some (xs.getLast?, none) := by
    rw [update, linkAt_modify, if_pos rfl, Array.getElem?_eq_getElem hi, htail]
    rfl
  unfold Roster.attachLast
  rw [htail] at hown hxs ⊢
  refine ⟨?_, ?_, ?_, ?_⟩
  · exact List.nodup_append.mpr ⟨hnd, by simp, fun j hj k hk hjk => by
      rw [List.mem_singleton] at hk
      exact hnot (hk ▸ hjk ▸ hj)⟩
  · dsimp only
    rw [head_linkNext]
    cases xs with
    | nil => rfl
    | cons j xs => simpa [update] using hhead
  · simp
  · rw [chain_append, chain_singleton, Option.or_none, Option.or_none]
    constructor
    · exact chain_linkNext hnd hxs _
    · rw [linkAt_linkNext_of_notMem hnot]
      exact hown

/-- A cell put at the start comes first. -/
theorem attachFirst (h : r.Spells xs) (hi : i < r.cells.size) (hnot : i ∉ xs) :
    (r.attachFirst i).Spells (i :: xs) := by
  obtain ⟨hnd, hhead, htail, hchain⟩ := h
  have hxs : Chain (r.update i ({ · with prev := none, next := r.head })).cells none xs none :=
    hchain.congr fun j hj => linkAt_modify_of_ne _ (by rintro rfl; exact hnot hj)
  have hown : linkAt (r.update i ({ · with prev := none, next := r.head })).cells i =
      some (none, xs.head?) := by
    rw [update, linkAt_modify, if_pos rfl, Array.getElem?_eq_getElem hi, hhead]
    rfl
  unfold Roster.attachFirst
  rw [hhead] at hown hxs ⊢
  refine ⟨List.nodup_cons.mpr ⟨hnot, hnd⟩, rfl, ?_, ?_⟩
  · dsimp only
    rw [tail_linkPrev]
    rcases List.eq_nil_or_concat xs with rfl | ⟨zs, t, rfl⟩
    · rfl
    · simpa [update, List.getLast?_cons] using htail
  · refine ⟨?_, ?_⟩
    · rw [linkAt_linkPrev_of_notMem hnot, Option.or_none]
      exact hown
    · exact chain_linkPrev hnd hxs _

end Spells

end LevelScript.Roster
