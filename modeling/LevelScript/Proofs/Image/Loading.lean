import Mathlib.Data.List.Forall2
import Mathlib.Tactic.Common
import LevelScript.Image.Load

/-!
# What loading gives

Steps of loading report to a journal, but what they give does not depend on it. `Gives x a` says
that `x` gives `a` with any journal. Each step that can not refuse is a plain function.

* `gives_bind`, `gives_foldlM`: steps one after another.
* `gives_applyPair`, `gives_declareArray`, `gives_initArray`, `gives_finishScripts`: one lemma for
  each kind of step.
-/

namespace LevelScript

namespace Loading

/-- The step gives the value, whatever was reported before. -/
def Gives {α : Type} (x : Loading α) (a : α) : Prop := ∀ j, ∃ j', x j = .ok a j'

variable {α β : Type}

theorem gives_pure (a : α) : Gives (pure a) a := fun j => ⟨j, rfl⟩

theorem Gives.unique {x : Loading α} {a b : α} (ha : Gives x a) (hb : Gives x b) : a = b := by
  obtain ⟨j, h⟩ := ha default
  obtain ⟨j', h'⟩ := hb default
  rw [h] at h'
  cases h'
  rfl

theorem gives_bind {x : Loading α} {f : α → Loading β} {a : α} {b : β} (hx : Gives x a)
    (hf : Gives (f a) b) : Gives (x >>= f) b := by
  intro j
  obtain ⟨j₁, h₁⟩ := hx j
  obtain ⟨j₂, h₂⟩ := hf j₁
  refine ⟨j₂, ?_⟩
  simp only [bind, EStateM.bind, h₁, h₂]

theorem gives_note (d : Diagnostic) : Gives (note d) () := fun j => ⟨j.note d, rfl⟩

theorem gives_ofExcept {x : Except LoadError α} {a : α} (h : x = .ok a) :
    Gives (ofExcept x) a := by
  rw [h]
  exact gives_pure a

/-- A loop of steps is a loop of what they give, over what their inputs stand for. -/
theorem gives_foldlM {γ : Type} {R : α → γ → Prop} {f : β → α → Loading β} {g : β → γ → β}
    {xs : List α} {ys : List γ} (hxs : List.Forall₂ R xs ys)
    (h : ∀ b x y, R x y → Gives (f b x) (g b y)) (b : β) :
    Gives (xs.foldlM f b) (ys.foldl g b) := by
  induction hxs generalizing b with
  | nil => exact gives_pure b
  | cons hxy _ ih =>
    rw [List.foldlM_cons, List.foldl_cons]
    exact gives_bind (h b _ _ hxy) (ih _)

end Loading

namespace Image

open Loading

/-! ## Scripts -/

theorem modifyScript_of_missing {number : Int32} {f : Script → Script} {scripts : List Script}
    (h : scripts.any (·.number == number) = false) : modifyScript number f scripts = scripts := by
  induction scripts with
  | nil => rfl
  | cons s rest ih =>
    rw [List.any_cons, Bool.or_eq_false_iff] at h
    rw [modifyScript, if_neg (by simp [h.1]), ih h.2]

/-- A value for a script that does not exist is left out. -/
theorem gives_applyPair (kind : ChunkKind) (set : UInt16 → Script → Script)
    (scripts : List Script) (pair : Int32 × UInt16) :
    Gives (applyPair kind set scripts pair) (modifyScript pair.1 (set pair.2) scripts) := by
  unfold applyPair
  split
  · exact gives_pure _
  · rename_i hmissing
    rw [modifyScript_of_missing (Bool.eq_false_iff.mpr hmissing)]
    exact gives_bind (gives_note _) (gives_pure _)

theorem gives_finishScripts {size : Nat} {scripts : List Script}
    (h : ∀ s ∈ scripts, s.entry.toNat < size) :
    Gives (finishScripts size scripts)
      (dropRepeated (scripts.mergeSort fun s t => s.number ≤ t.number)) := by
  have hfind : scripts.find? (fun s => size ≤ s.entry.toNat) = none := by
    rw [List.find?_eq_none]
    intro s hs
    simpa using h s hs
  unfold finishScripts
  rw [hfind]
  dsimp only
  split
  · exact gives_bind (gives_note _) (gives_pure _)
  · exact gives_pure _

theorem mem_of_mem_dropRepeated {script : Script} {scripts : List Script}
    (h : script ∈ dropRepeated scripts) : script ∈ scripts := by
  fun_induction dropRepeated scripts with
  | case1 s t rest heq ih =>
    rcases List.mem_cons.mp (ih h) with rfl | hmem
    · exact List.mem_cons_self
    · exact List.mem_cons_of_mem _ (List.mem_cons_of_mem _ hmem)
  | case2 s t rest hne ih =>
    rcases List.mem_cons.mp h with rfl | hmem
    · exact List.mem_cons_self
    · exact List.mem_cons_of_mem _ (ih hmem)
  | case3 scripts _ => exact h

/-! ## Memory -/

/-- The memory with one more array. -/
def declared (m : MapMemory) (record : UInt32 × UInt32) : MapMemory :=
  let bound := m.setVar record.1.toNat (Int32.ofNat m.arrays.size)
  { bound with arrays := bound.arrays.push (Array.replicate record.2.toNat 0) }

theorem gives_declareArray (chunk : Chunk) (m : MapMemory) {record : UInt32 × UInt32}
    (h : record.2.toNat ≤ maxArrayLength) :
    Gives (declareArray chunk m record) (declared m record) := by
  obtain ⟨slot, size⟩ := record
  unfold declareArray
  dsimp only
  rw [if_neg (Nat.not_lt.mpr h)]
  split
  · exact gives_pure _
  · exact gives_bind (gives_note _) (gives_pure _)

theorem writeFrom_cons (start : Nat) (v : UInt32) (values : List UInt32) (a : Array Int32) :
    writeFrom start (v :: values) a =
      writeFrom (start + 1) values (a.setIfInBounds start v.toInt32) := rfl

theorem size_writeFrom (values : List UInt32) (start : Nat) (a : Array Int32) :
    (writeFrom start values a).size = a.size := by
  induction values generalizing start a with
  | nil => rfl
  | cons v rest ih => rw [writeFrom_cons, ih, Array.size_setIfInBounds]

/-- The memory with first values in an array. -/
def filled (m : MapMemory) (array : UInt32) (values : List UInt32) : MapMemory :=
  { m with arrays := m.arrays.modify array.toNat (writeFrom 0 values) }

/-- Values for an array that does not exist are left out. -/
theorem gives_initArray (m : MapMemory) {chunk : Chunk} {array : UInt32} {values : List UInt32}
    (h : Chunk.words chunk.payload = array :: values) :
    Gives (initArray m chunk) (filled m array values) := by
  unfold initArray
  rw [h]
  dsimp only
  split
  · exact gives_pure _
  · rename_i houtside
    have hsame : filled m array values = m := by
      simp [filled, Array.modify, Array.modifyM, houtside]
    rw [hsame]
    exact gives_bind (gives_note _) (gives_pure _)

/-- The memory with values in variables one after another. -/
def assigned (m : MapMemory) (first : UInt32) (values : List UInt32) : MapMemory :=
  (values.foldl (fun (m, i) v => (m.setVar i v.toInt32, i + 1)) (m, first.toNat)).1

theorem gives_initVars (m : MapMemory) {chunk : Chunk} {first : UInt32} {values : List UInt32}
    (h : Chunk.words chunk.payload = first :: values) :
    Gives (initVars m chunk) (assigned m first values) := by
  unfold initVars
  rw [h]
  exact gives_pure _

/-! ## Texts -/

theorem gives_insertTable (strings : Strings) (t : StringTable) :
    Gives (insertTable strings t) (strings.insert t) := by
  refine gives_bind (a := ()) (fun j => ⟨_, rfl⟩) ?_
  exact gives_pure _

end Image

end LevelScript
