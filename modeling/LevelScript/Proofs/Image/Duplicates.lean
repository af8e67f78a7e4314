import Mathlib.Data.List.Induction
import Mathlib.Data.List.Nodup
import LevelScript.Proofs.Image.Loading
import LevelScript.Proofs.Sorting

/-!
# What is said twice

An image may hold several scripts of one number, several values for one script and several tables
of one language. The first script and the first table stay, the last value counts.

* `Image.find?_patched`: values go to the first script of their number, the last one last.
* `Image.inOrder`, `Image.find?_inOrder`: ordering scripts keeps the first of each number.
* `bisect_eq_find?`: a search by halving finds the same as a search from the front.
* `Strings.mem_ofTables`: the tables that stay are the first of their languages.
-/

namespace LevelScript

/-! ## Values for scripts -/

/-- The value of the last pair that names a script. -/
def lastFor (n : Int32) (pairs : List (Int32 × UInt16)) : Option UInt16 :=
  (pairs.filter (·.1 == n)).getLast?.map Prod.snd

theorem lastFor_append_singleton (n : Int32) (pairs : List (Int32 × UInt16))
    (pair : Int32 × UInt16) :
    lastFor n (pairs ++ [pair]) = if pair.1 = n then some pair.2 else lastFor n pairs := by
  unfold lastFor
  by_cases h : pair.1 = n
  · simp [List.filter_append, h]
  · simp [List.filter_append, h]

namespace Image

theorem find?_modifyScript {f : Script → Script} (hf : ∀ s, (f s).number = s.number)
    (number n : Int32) (scripts : List Script) :
    (modifyScript number f scripts).find? (·.number == n) =
      if number = n then (scripts.find? (·.number == n)).map f
      else scripts.find? (·.number == n) := by
  induction scripts with
  | nil => simp [modifyScript]
  | cons s rest ih =>
    rw [modifyScript]
    by_cases hs : s.number = number
    · by_cases hn : number = n
      · simp [hs, hn, hf]
      · simp [hs, hn, hf]
    · rw [if_neg (by simpa using hs), List.find?_cons, List.find?_cons, ih]
      by_cases hn : s.number = n
      · have hne : number ≠ n := fun h => hs (hn.trans h.symm)
        simp [hn, hne]
      · rw [beq_false_of_ne hn]

/-- Scripts after values for some of them. -/
def patched (set : UInt16 → Script → Script) (scripts : List Script)
    (pairs : List (Int32 × UInt16)) : List Script :=
  pairs.foldl (fun scripts pair => modifyScript pair.1 (set pair.2) scripts) scripts

/-- The first script of a number gets the last value for it. -/
theorem find?_patched {set : UInt16 → Script → Script}
    (hnumber : ∀ v s, (set v s).number = s.number) (hset : ∀ v w s, set w (set v s) = set w s)
    (scripts : List Script) (pairs : List (Int32 × UInt16)) (n : Int32) :
    (patched set scripts pairs).find? (·.number == n) =
      (scripts.find? (·.number == n)).map ((lastFor n pairs).elim id set) := by
  induction pairs using List.reverseRecOn with
  | nil => simp [patched, lastFor]
  | append_singleton front pair ih =>
    have hlast : patched set scripts (front ++ [pair]) =
        modifyScript pair.1 (set pair.2) (patched set scripts front) := by
      simp [patched]
    rw [hlast, find?_modifyScript (hnumber pair.2), ih, lastFor_append_singleton]
    by_cases hn : pair.1 = n
    · rw [if_pos hn, if_pos hn, Option.map_map]
      congr 1
      funext s
      cases hfront : lastFor n front with
      | none => rfl
      | some v => exact hset v pair.2 s
    · rw [if_neg hn, if_neg hn]

/-! ## The order of scripts -/

/-- Scripts by number, the first of each number only. -/
def inOrder (scripts : List Script) : List Script :=
  dropRepeated (scripts.mergeSort fun s t => s.number ≤ t.number)

theorem sorted_mergeSort (scripts : List Script) :
    (scripts.mergeSort fun s t => s.number ≤ t.number).Pairwise (·.number ≤ ·.number) :=
  pairwise_mergeSort_key Script.number scripts

theorem find?_dropRepeated (scripts : List Script) (n : Int32) :
    (dropRepeated scripts).find? (·.number == n) = scripts.find? (·.number == n) := by
  fun_induction dropRepeated scripts with
  | case1 s t rest heq ih =>
    -- the script that goes has the number of the one before it
    rw [ih, List.find?_cons, List.find?_cons, List.find?_cons, ← beq_iff_eq.mp heq]
    split <;> rfl
  | case2 s t rest hne ih => rw [List.find?_cons, ih, List.find?_cons (a := s)]
  | case3 scripts _ => rfl

theorem ascending_dropRepeated {scripts : List Script}
    (h : scripts.Pairwise (·.number ≤ ·.number)) :
    (dropRepeated scripts).Pairwise (·.number < ·.number) := by
  fun_induction dropRepeated scripts with
  | case1 s t rest heq ih =>
    have hsub : (s :: rest).Sublist (s :: t :: rest) := (List.sublist_cons_self t rest).cons_cons s
    exact ih (h.sublist hsub)
  | case2 s t rest hne ih =>
    obtain ⟨hs, hrest⟩ := List.pairwise_cons.mp h
    refine List.pairwise_cons.mpr ⟨fun u hu => ?_, ih hrest⟩
    have hst : s.number < t.number :=
      Int32.lt_of_le_of_ne (hs t List.mem_cons_self) (by simpa using hne)
    rcases List.mem_cons.mp (mem_of_mem_dropRepeated hu) with rfl | hmem
    · exact hst
    · exact Int32.lt_of_lt_of_le hst ((List.pairwise_cons.mp hrest).1 u hmem)
  | case3 scripts hshort =>
    cases scripts with
    | nil => exact .nil
    | cons s rest =>
      cases rest with
      | nil => exact List.pairwise_singleton _ s
      | cons t rest => exact absurd rfl (hshort s t rest)

theorem ascending_inOrder (scripts : List Script) :
    (inOrder scripts).Pairwise (·.number < ·.number) :=
  ascending_dropRepeated (sorted_mergeSort scripts)

/-- The first script of each number stays. -/
theorem find?_inOrder (scripts : List Script) (n : Int32) :
    (inOrder scripts).find? (·.number == n) = scripts.find? (·.number == n) := by
  rw [inOrder, find?_dropRepeated, ← List.head?_filter,
    filter_mergeSort_key Script.number, List.head?_filter]

theorem mem_of_mem_inOrder {s : Script} {scripts : List Script} (h : s ∈ inOrder scripts) :
    s ∈ scripts :=
  List.mem_mergeSort.mp (mem_of_mem_dropRepeated h)

end Image

/-! ## Search by halving -/

/-- Looks at the script in the middle and goes on in the half that may have the number. -/
def bisect (n : Int32) (scripts : List Script) : Option Script :=
  match h : scripts.drop (scripts.length / 2) with
  | [] => none
  | s :: above =>
    if s.number = n then some s
    else if n < s.number then bisect n (scripts.take (scripts.length / 2))
    else bisect n above
termination_by scripts.length
decreasing_by
  all_goals
    have hlength := congrArg List.length h
    rw [List.length_drop, List.length_cons] at hlength
  · rw [List.length_take]
    omega
  · omega

/-- Among ascending numbers, a script tells on which side of it a number may be. -/
theorem find?_around {n : Int32} {below above : List Script} {s : Script}
    (h : (below ++ s :: above).Pairwise (·.number < ·.number)) :
    (below ++ s :: above).find? (·.number == n) =
      if s.number = n then some s
      else if n < s.number then below.find? (·.number == n) else above.find? (·.number == n) := by
  obtain ⟨-, hs, hbelow⟩ := List.pairwise_append.mp h
  have hnone {side : List Script} (hside : ∀ t ∈ side, t.number ≠ n) :
      side.find? (·.number == n) = none := by
    rw [List.find?_eq_none]
    intro t ht
    simpa using hside t ht
  have hbelow' : n < s.number ∨ below.find? (·.number == n) = none := by
    by_cases hlt : n < s.number
    · exact .inl hlt
    · refine .inr (hnone fun t ht hn => hlt ?_)
      exact hn ▸ hbelow t ht s List.mem_cons_self
  have habove : n ≤ s.number → above.find? (·.number == n) = none := by
    intro hle
    refine hnone fun t ht hn => ?_
    have hst := (List.pairwise_cons.mp hs).1 t ht
    rw [hn] at hst
    exact Int32.lt_irrefl (Int32.lt_of_lt_of_le hst hle)
  rw [List.find?_append, List.find?_cons]
  by_cases hn : s.number = n
  · have hnot : ¬ n < s.number := hn ▸ Int32.lt_irrefl
    rw [if_pos hn, hbelow'.resolve_left hnot, beq_iff_eq.mpr hn, Option.none_or]
  · rw [if_neg hn, beq_false_of_ne hn]
    by_cases hlt : n < s.number
    · rw [if_pos hlt, habove (Int32.le_of_lt hlt), Option.or_none]
    · rw [if_neg hlt, hbelow'.resolve_left hlt, Option.none_or]

/-- When numbers ascend, a search by halving finds the script that has the number. -/
theorem bisect_eq_find? {scripts : List Script} (h : scripts.Pairwise (·.number < ·.number))
    (n : Int32) : bisect n scripts = scripts.find? (·.number == n) := by
  induction hlength : scripts.length using Nat.strongRecOn generalizing scripts with
  | ind length ih =>
    subst hlength
    rw [bisect]
    split
    · rename_i hdrop
      have hhalf := List.drop_eq_nil_iff.mp hdrop
      have hnil : scripts = [] := List.length_eq_zero_iff.mp (by omega)
      rw [hnil]
      rfl
    · rename_i s above hdrop
      have hsplit : scripts = scripts.take (scripts.length / 2) ++ s :: above := by
        rw [← hdrop, List.take_append_drop]
      have hlength := congrArg List.length hsplit
      rw [List.length_append, List.length_cons] at hlength
      have hparts := h
      rw [hsplit] at hparts
      obtain ⟨hbelow, hrest, -⟩ := List.pairwise_append.mp hparts
      rw [ih _ (by omega) hbelow rfl, ih _ (by omega) (List.pairwise_cons.mp hrest).2 rfl,
        ← find?_around hparts, ← hsplit]

/-! ## Tables of texts -/

namespace Strings

/-- Adds tables one after another. -/
def ofTables (tables : List StringTable) : Strings := tables.foldl insert empty

theorem table?_insert (s : Strings) (t : StringTable) (l : Language) :
    (s.insert t).table? l = (s.table? l).or (if t.language = l then some t else none) := by
  unfold insert
  split
  · rename_i hsome
    by_cases hl : t.language = l
    · rw [hl] at hsome
      rw [if_pos hl, Option.or_of_isSome hsome]
    · rw [if_neg hl, Option.or_none]
  · by_cases hl : t.language = l
    · simp [table?, List.find?_append, hl]
    · simp [table?, List.find?_append, hl]

theorem nodup_insert {s : Strings} (h : s.languages.Nodup) (t : StringTable) :
    (s.insert t).languages.Nodup := by
  unfold insert
  split
  · exact h
  · rename_i hnone
    have hnew : t.language ∉ s.languages := by
      intro hmem
      obtain ⟨u, hu, hl⟩ := List.mem_map.mp hmem
      exact hnone (List.find?_isSome.mpr ⟨u, hu, by simpa using hl⟩)
    rw [languages, List.map_append, List.map_singleton, List.nodup_append]
    refine ⟨h, List.nodup_singleton _, fun l hl m hm => ?_⟩
    rw [List.mem_singleton.mp hm]
    exact fun heq => hnew (heq ▸ hl)

theorem nodup_ofTables (tables : List StringTable) : (ofTables tables).languages.Nodup := by
  induction tables using List.reverseRecOn with
  | nil => exact List.nodup_nil
  | append_singleton front t ih =>
    rw [ofTables, List.foldl_append]
    exact nodup_insert ih t

theorem table?_ofTables (tables : List StringTable) (l : Language) :
    (ofTables tables).table? l = tables.find? (·.language == l) := by
  induction tables using List.reverseRecOn with
  | nil => rfl
  | append_singleton front t ih =>
    rw [ofTables, List.foldl_append]
    refine (table?_insert (ofTables front) t l).trans ?_
    rw [ih, List.find?_append, List.find?_singleton]
    simp only [beq_iff_eq]

/-- The tables that stay are the first of their languages. -/
theorem mem_ofTables {tables : List StringTable} {t : StringTable} :
    t ∈ (ofTables tables).tables ↔ tables.find? (·.language == t.language) = some t := by
  rw [← table?_ofTables]
  constructor
  · intro hmem
    have hsome : ((ofTables tables).table? t.language).isSome :=
      List.find?_isSome.mpr ⟨t, hmem, beq_self_eq_true _⟩
    obtain ⟨u, hu⟩ := Option.isSome_iff_exists.mp hsome
    have hl : u.language = t.language := by simpa using List.find?_some hu
    rw [hu, List.inj_on_of_nodup_map (nodup_ofTables tables) (List.mem_of_find?_eq_some hu) hmem hl]
  · exact List.mem_of_find?_eq_some

end Strings

end LevelScript
