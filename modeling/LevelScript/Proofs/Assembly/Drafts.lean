import LevelScript.Proofs.Assembly.Declared
import LevelScript.Proofs.Assembly.Instructions
import LevelScript.Proofs.Level.Sides

/-!
# One module in two drafts

A module whose code is whole instructions, put together in wide and in compact code. The drafts
have the same tables, but for offsets; and offsets stand for the same places between instructions.

* `WellFormed`: what is asked of the declarations of a module.
* `SameOffset`: offsets of one place between instructions.
* `samePlace_label`, `scripts_alike`, `functions_alike`: offsets in the drafts are of one place.
* `scripts_program_alike`: so they are in the programs of the drafts.
-/

namespace LevelScript.Assembly

open Draft (headerLength)

/-! ## Modules -/

/-- The label was bound last between whole instructions. -/
def BoundBetween (items : List CodeItem) (label : Label) : Prop :=
  ∃ before after, items = before ++ .bind label :: after ∧ .bind label ∉ after ∧
    Token.Whole (tokens before) ∧ Token.Whole (tokens after)

/-- Some declaration gives the code of the function. -/
def Defines (index : Nat) (declarations : List Declaration) : Prop :=
  ∃ function code, .define function code ∈ declarations ∧ function.toNat = index

namespace Declaration

/-- Code is whole instructions, and numbers are in the range of their records. -/
def Fits : Declaration → Prop
  | .script number typeTag _ code =>
    Image.IsShort number ∧ typeTag ≤ 255 ∧ Token.Whole (tokens code)
  | .define _ code => Token.Whole (tokens code)
  | .array _ _ size => size.toNat ≤ Image.maxArrayLength
  | _ => True

variable {decl : Declaration}

theorem Fits.whole (h : decl.Fits) : Token.Whole (tokens decl.code) := by
  cases decl with
  | script number typeTag argCount code => exact h.2.2
  | define function code => exact h
  | _ => exact .nil

theorem Fits.hasRoom (h : decl.Fits) (layout : Layout) : decl.HasRoom layout := by
  cases decl with
  | script number typeTag argCount code => exact ⟨h.1, fun _ _ => h.2.1⟩
  | array slot init size => exact h
  | _ => trivial

end Declaration

/-- Code is whole instructions, jumps go to labels between them, and each function that is not
imported gets its code after it is declared. -/
structure WellFormed (declarations : List Declaration) : Prop where
  fits : ∀ decl ∈ declarations, decl.Fits
  labels : ∀ label, .target label ∈ tokens (moduleCode declarations) →
    BoundBetween (moduleCode declarations) label
  functions : ∀ before argCount localCount hasReturn after,
    declarations = before ++ .function argCount localCount hasReturn :: after →
      Defines (before.filterMap Declaration.function?).length after

theorem whole_moduleCode {declarations : List Declaration} (h : ∀ decl ∈ declarations, decl.Fits) :
    Token.Whole (tokens (moduleCode declarations)) := by
  induction declarations with
  | nil => exact .nil
  | cons decl rest ih =>
    rw [moduleCode, List.flatMap_cons, tokens_append]
    exact (h decl List.mem_cons_self).whole.append
      (ih fun decl hdecl => h decl (List.mem_cons_of_mem _ hdecl))

/-! ## Offsets of one place -/

/-- Offsets of one place between instructions. -/
def SameOffset (code : List Token) (w₁ w₂ : CodeWidth) (p q : UInt32) : Prop :=
  ∃ front back, code = front ++ back ∧ Token.Whole front ∧ Token.Whole back ∧
    p = (Token.reach w₁ headerLength front).toUInt32 ∧
    q = (Token.reach w₂ headerLength front).toUInt32

/-- Offsets of one place in the code of a module. -/
abbrev SamePlace (declarations : List Declaration) (w₁ w₂ : CodeWidth) (p q : UInt32) : Prop :=
  SameOffset (tokens (moduleCode declarations)) w₁ w₂ p q

/-- The offset after the code of declarations. -/
def codeEnd (width : CodeWidth) (declarations : List Declaration) : Nat :=
  Token.reach width headerLength (tokens (moduleCode declarations))

theorem codeEnd_concat (width : CodeWidth) (before : List Declaration) (decl : Declaration) :
    codeEnd width (before ++ [decl]) = decl.after width (codeEnd width before) := by
  rw [codeEnd, moduleCode, List.flatMap_append, List.flatMap_singleton, tokens_append,
    Token.reach_append]
  rfl

section Places

variable {declarations before rest : List Declaration} {w₁ w₂ : CodeWidth}

/-- Code of a declaration starts at the same place. -/
theorem samePlace_codeEnd (hfits : ∀ decl ∈ declarations, decl.Fits)
    (hsplit : declarations = before ++ rest) (w₁ w₂ : CodeWidth) :
    SamePlace declarations w₁ w₂ (codeEnd w₁ before).toUInt32 (codeEnd w₂ before).toUInt32 := by
  refine ⟨tokens (moduleCode before), tokens (moduleCode rest), ?_, ?_, ?_, rfl, rfl⟩
  · rw [hsplit, moduleCode, List.flatMap_append, tokens_append]
    rfl
  · exact whole_moduleCode fun decl hdecl => hfits decl (hsplit ▸ List.mem_append_left _ hdecl)
  · exact whole_moduleCode fun decl hdecl => hfits decl (hsplit ▸ List.mem_append_right _ hdecl)

/-- A label stands for the same place. -/
theorem samePlace_label (h : WellFormed declarations) (w₁ w₂ : CodeWidth) {label : Label}
    (hlabel : .target label ∈ tokens (moduleCode declarations)) :
    SamePlace declarations w₁ w₂ ((Draft.ofDeclarations w₁ declarations).labelOffset label)
      ((Draft.ofDeclarations w₂ declarations).labelOffset label) := by
  obtain ⟨front, back, hitems, hback, hwhole, hwhole'⟩ := h.labels label hlabel
  have hoffset : ∀ w, (Draft.ofDeclarations w declarations).labelOffset label =
      (Token.reach w headerLength (tokens front)).toUInt32 := by
    intro w
    have hholds := Draft.holds_ofDeclarations w declarations
    rw [Draft.labelOffset, hholds.labels hitems hback, Option.getD_some,
      Draft.ofDeclarations_width]
  refine ⟨tokens front, tokens back, ?_, hwhole, hwhole', hoffset w₁, hoffset w₂⟩
  rw [hitems, tokens_append]
  rfl

/-! ## Functions -/

/-- A declaration gives a function its code, or leaves it to later ones. -/
theorem locate_cases (decl : Declaration) (index : Nat) :
    (∀ place f, decl.locate index place f = { f with entry := place.toUInt32 }) ∨
      (∀ place f, decl.locate index place f = f) ∧
        ∀ rest, Defines index (decl :: rest) → Defines index rest := by
  by_cases hdecl : ∃ function code, decl = .define function code ∧ function.toNat = index
  · obtain ⟨function, code, rfl, hindex⟩ := hdecl
    exact .inl fun place f => if_pos hindex
  · refine .inr ⟨fun place f => ?_, ?_⟩
    · cases decl with
      | define function code => exact if_neg fun hindex => hdecl ⟨function, code, rfl, hindex⟩
      | _ => rfl
    · rintro rest ⟨function, code, hmem, hindex⟩
      rcases List.mem_cons.mp hmem with rfl | hrest
      · exact absurd ⟨function, code, rfl, hindex⟩ hdecl
      · exact ⟨function, code, hrest, hindex⟩

/-- The code of a function starts at the same place, if later declarations give it or if it
started at the same place before. -/
theorem located_alike (hfits : ∀ decl ∈ declarations, decl.Fits)
    (hsplit : declarations = before ++ rest) {index : Nat} {f g : Function}
    (hsame : g = { f with entry := g.entry })
    (hentry : f.isImported = false →
      SamePlace declarations w₁ w₂ f.entry g.entry ∨ Defines index rest) :
    Function.Alike (SamePlace declarations w₁ w₂)
      (located w₁ index (codeEnd w₁ before) rest f)
      (located w₂ index (codeEnd w₂ before) rest g) := by
  induction rest generalizing before f g with
  | nil =>
    rw [located, located, hsame]
    refine ⟨rfl, rfl, rfl, fun himported => ?_⟩
    rcases hentry himported with hplace | ⟨function, code, hmem, -⟩
    · exact hplace
    · exact absurd hmem List.not_mem_nil
  | cons decl rest ih =>
    have hplace := samePlace_codeEnd hfits hsplit w₁ w₂
    have hsplit' : declarations = (before ++ [decl]) ++ rest := by
      rw [hsplit, List.append_assoc]
      rfl
    rw [located, located, ← codeEnd_concat, ← codeEnd_concat]
    rcases locate_cases decl index with hlocate | ⟨hkeep, hlater⟩
    · rw [hlocate, hlocate]
      exact ih hsplit' (by rw [hsame]) fun _ => .inl hplace
    · rw [hkeep, hkeep]
      exact ih hsplit' hsame fun himported => (hentry himported).imp_right (hlater rest)

theorem functions_alike_from (h : WellFormed declarations)
    (hsplit : declarations = before ++ rest) :
    List.Forall₂ (Function.Alike (SamePlace declarations w₁ w₂))
      (declaredFunctions w₁ (before.filterMap Declaration.function?).length (codeEnd w₁ before)
        rest)
      (declaredFunctions w₂ (before.filterMap Declaration.function?).length (codeEnd w₂ before)
        rest) := by
  induction rest generalizing before with
  | nil => exact .nil
  | cons decl rest ih =>
    have hsplit' : declarations = (before ++ [decl]) ++ rest := by
      rw [hsplit, List.append_assoc]
      rfl
    have hcount : ((before ++ [decl]).filterMap Declaration.function?).length =
        (before.filterMap Declaration.function?).length + decl.function?.toList.length := by
      rw [List.filterMap_append, List.length_append, List.filterMap_cons]
      cases decl.function? <;> rfl
    have hrest := ih hsplit'
    rw [hcount, codeEnd_concat, codeEnd_concat] at hrest
    rw [declaredFunctions, declaredFunctions]
    refine List.rel_append ?_ hrest
    cases hdecl : decl.function? with
    | none => exact .nil
    | some f =>
      refine .cons ?_ .nil
      rw [← codeEnd_concat, ← codeEnd_concat]
      refine located_alike h.fits hsplit' rfl fun himported => .inr ?_
      cases decl with
      | function argCount localCount hasReturn => exact h.functions _ _ _ _ _ hsplit
      | imported argCount hasReturn =>
        cases hdecl
        exact absurd himported (by simp [Function.isImported])
      | _ => exact absurd hdecl (by simp [Declaration.function?])

/-- Functions differ only in offsets, and those are of the same place. -/
theorem functions_alike (h : WellFormed declarations) (w₁ w₂ : CodeWidth) :
    List.Forall₂ (Function.Alike (SamePlace declarations w₁ w₂))
      (Draft.ofDeclarations w₁ declarations).functions.toList
      (Draft.ofDeclarations w₂ declarations).functions.toList := by
  rw [functions_ofDeclarations, functions_ofDeclarations]
  exact functions_alike_from h (List.nil_append _).symm

/-! ## Scripts -/

theorem forall₂_modify {α β : Type} {R : α → β → Prop} {xs : List α} {ys : List β}
    (h : List.Forall₂ R xs ys) {f : α → α} {g : β → β} (hfg : ∀ x y, R x y → R (f x) (g y))
    (i : Nat) : List.Forall₂ R (xs.modify i f) (ys.modify i g) := by
  induction h generalizing i with
  | nil => simp
  | cons hxy hrest ih =>
    cases i with
    | zero => exact .cons (hfg _ _ hxy) hrest
    | succ i => exact .cons hxy (ih i)

theorem findIdx_eq_of_forall₂ {α β : Type} {R : α → β → Prop} {xs : List α} {ys : List β}
    (h : List.Forall₂ R xs ys) {c : α → Bool} {d : β → Bool} (hcd : ∀ x y, R x y → c x = d y) :
    xs.findIdx c = ys.findIdx d := by
  induction h with
  | nil => rfl
  | cons hxy _ ih => rw [List.findIdx_cons, List.findIdx_cons, hcd _ _ hxy, ih]

theorem script_alike_number {P : UInt32 → UInt32 → Prop} {s t : Script} (h : s.Alike P t) :
    t.number = s.number := by
  rw [h.same]

theorem modifyScript_alike {P : UInt32 → UInt32 → Prop} {d₁ d₂ : Draft}
    (h : List.Forall₂ (Script.Alike P) d₁.scripts d₂.scripts) (number : Int32)
    {f : Script → Script} (hf : ∀ s t, s.Alike P t → (f s).Alike P (f t)) :
    List.Forall₂ (Script.Alike P) (d₁.modifyScript number f).scripts
      (d₂.modifyScript number f).scripts := by
  have hindex : d₁.scripts.findIdx (·.number == number) =
      d₂.scripts.findIdx (·.number == number) :=
    findIdx_eq_of_forall₂ h fun s t hst => by rw [script_alike_number hst]
  unfold Draft.modifyScript
  rw [← hindex]
  exact forall₂_modify h hf _

/-- One more declaration keeps scripts alike, if code goes on at the same place. -/
theorem scripts_alike_declare {P : UInt32 → UInt32 → Prop} {d₁ d₂ : Draft}
    (h : List.Forall₂ (Script.Alike P) d₁.scripts d₂.scripts) (hhere : P d₁.here d₂.here)
    (decl : Declaration) : List.Forall₂ (Script.Alike P) (d₁.declare decl).scripts
      (d₂.declare decl).scripts := by
  cases decl with
  | script number typeTag argCount code =>
    rw [Draft.declare, Draft.declare, Draft.emitCode_keeps,
      Draft.emitCode_keeps { d₂ with scripts := _ }]
    exact List.rel_append h (.cons ⟨rfl, hhere⟩ .nil)
  | flags number given =>
    exact modifyScript_alike h number fun s t hst => ⟨by rw [hst.same], hst.entry⟩
  | locals number count =>
    exact modifyScript_alike h number fun s t hst => ⟨by rw [hst.same], hst.entry⟩
  | define function code =>
    rw [Draft.declare, Draft.declare, Draft.emitCode_keeps,
      Draft.emitCode_keeps { d₂ with functions := _ }]
    exact h
  | _ => exact h

theorem scripts_alike_from (hfits : ∀ decl ∈ declarations, decl.Fits) (d₁ d₂ : Draft)
    (hsplit : declarations = before ++ rest)
    (hsize₁ : d₁.code.size = codeEnd d₁.width before)
    (hsize₂ : d₂.code.size = codeEnd d₂.width before)
    (h : List.Forall₂ (Script.Alike (SamePlace declarations d₁.width d₂.width))
      d₁.scripts d₂.scripts) :
    List.Forall₂ (Script.Alike (SamePlace declarations d₁.width d₂.width))
      (rest.foldl Draft.declare d₁).scripts (rest.foldl Draft.declare d₂).scripts := by
  induction rest generalizing before d₁ d₂ with
  | nil => exact h
  | cons decl rest ih =>
    have hsplit' : declarations = (before ++ [decl]) ++ rest := by
      rw [hsplit, List.append_assoc]
      rfl
    have hhere : SamePlace declarations d₁.width d₂.width d₁.here d₂.here := by
      rw [Draft.here, Draft.here, hsize₁, hsize₂]
      exact samePlace_codeEnd hfits hsplit _ _
    have hstep := ih (d₁.declare decl) (d₂.declare decl) hsplit'
    simp only [Draft.declare_width, Draft.size_declare, codeEnd_concat, hsize₁, hsize₂] at hstep
    exact hstep trivial trivial (scripts_alike_declare h hhere decl)

/-- Scripts differ only in their first offsets, and those are of the same place. -/
theorem scripts_alike (hfits : ∀ decl ∈ declarations, decl.Fits) (w₁ w₂ : CodeWidth) :
    List.Forall₂ (Script.Alike (SamePlace declarations w₁ w₂))
      (Draft.ofDeclarations w₁ declarations).scripts
      (Draft.ofDeclarations w₂ declarations).scripts :=
  scripts_alike_from hfits (.empty w₁) (.empty w₂) (List.nil_append _).symm rfl rfl .nil

end Places

/-! ## Programs -/

theorem tables_foldl_declare (declarations : List Declaration) {d₁ d₂ : Draft}
    (h : d₁.tables = d₂.tables) :
    (declarations.foldl Draft.declare d₁).tables =
      (declarations.foldl Draft.declare d₂).tables := by
  induction declarations generalizing d₁ d₂ with
  | nil => exact h
  | cons decl rest ih =>
    apply ih
    cases decl with
    | text s => exact congrArg (Draft.addText s) h
    | table language texts => exact congrArg (Draft.setTable language texts) h
    | script number typeTag argCount code =>
      rw [Draft.declare, Draft.declare, Draft.emitCode_keeps,
        Draft.emitCode_keeps { d₂ with scripts := _ }]
      exact h
    | define function code =>
      rw [Draft.declare, Draft.declare, Draft.emitCode_keeps,
        Draft.emitCode_keeps { d₂ with functions := _ }]
      exact h
    | _ => exact h

section Programs

variable {P : UInt32 → UInt32 → Prop} {xs ys : List Script}

theorem filterMap_eq_of_forall₂ {α β γ : Type} {R : α → β → Prop} {as : List α} {bs : List β}
    (h : List.Forall₂ R as bs) {f : α → Option γ} {g : β → Option γ}
    (hfg : ∀ a b, R a b → f a = g b) : as.filterMap f = bs.filterMap g := by
  induction h with
  | nil => rfl
  | cons hab _ ih => rw [List.filterMap_cons, List.filterMap_cons, hfg _ _ hab, ih]

theorem forall₂_modifyScript (h : List.Forall₂ (Script.Alike P) xs ys) (number : Int32)
    {f : Script → Script} (hf : ∀ s t, s.Alike P t → (f s).Alike P (f t)) :
    List.Forall₂ (Script.Alike P) (Image.modifyScript number f xs)
      (Image.modifyScript number f ys) := by
  induction h with
  | nil => exact .nil
  | cons hst hrest ih =>
    rw [Image.modifyScript, Image.modifyScript, script_alike_number hst]
    split
    · exact .cons (hf _ _ hst) hrest
    · exact .cons hst ih

theorem forall₂_foldl_modifyScript (set : UInt16 → Script → Script)
    (hset : ∀ v s t, Script.Alike P s t → (set v s).Alike P (set v t))
    (pairs : List (Int32 × UInt16)) (h : List.Forall₂ (Script.Alike P) xs ys) :
    List.Forall₂ (Script.Alike P)
      (pairs.foldl (fun scripts pair => Image.modifyScript pair.1 (set pair.2) scripts) xs)
      (pairs.foldl (fun scripts pair => Image.modifyScript pair.1 (set pair.2) scripts) ys) := by
  induction pairs generalizing xs ys with
  | nil => exact h
  | cons pair rest ih => exact ih (forall₂_modifyScript h pair.1 (hset pair.2))

theorem forall₂_mergeSort (h : List.Forall₂ (Script.Alike P) xs ys) :
    List.Forall₂ (Script.Alike P) (xs.mergeSort fun s t => s.number ≤ t.number)
      (ys.mergeSort fun s t => s.number ≤ t.number) := by
  obtain ⟨hlength, halike⟩ := List.forall₂_iff_zip.mp h
  have hnumber : ∀ p ∈ xs.zip ys, p.2.number = p.1.number :=
    fun p hp => script_alike_number (halike hp)
  have hleft := List.map_mergeSort (r := fun p q : Script × Script => p.1.number ≤ q.1.number)
    (s := fun s t : Script => s.number ≤ t.number) (f := Prod.fst) (l := xs.zip ys)
    fun _ _ _ _ => rfl
  have hright := List.map_mergeSort (r := fun p q : Script × Script => p.1.number ≤ q.1.number)
    (s := fun s t : Script => s.number ≤ t.number) (f := Prod.snd) (l := xs.zip ys)
    fun p hp q hq => by rw [hnumber p hp, hnumber q hq]
  rw [List.map_fst_zip (Nat.le_of_eq hlength)] at hleft
  rw [List.map_snd_zip (Nat.le_of_eq hlength.symm)] at hright
  rw [← hleft, ← hright, List.forall₂_map_left_iff, List.forall₂_map_right_iff, List.forall₂_same]
  exact fun p hp => halike ((List.mergeSort_perm _ _).mem_iff.mp hp)

theorem forall₂_dropRepeated (h : List.Forall₂ (Script.Alike P) xs ys) :
    List.Forall₂ (Script.Alike P) (Image.dropRepeated xs) (Image.dropRepeated ys) := by
  fun_induction Image.dropRepeated xs generalizing ys with
  | case1 s t rest hsame ih =>
    obtain ⟨s', ys, hs, hrest, rfl⟩ := List.forall₂_cons_left_iff.mp h
    obtain ⟨t', ys, ht, htail, rfl⟩ := List.forall₂_cons_left_iff.mp hrest
    rw [Image.dropRepeated, script_alike_number hs, script_alike_number ht, if_pos hsame]
    exact ih (.cons hs htail)
  | case2 s t rest hdiffer ih =>
    obtain ⟨s', ys, hs, hrest, rfl⟩ := List.forall₂_cons_left_iff.mp h
    obtain ⟨t', ys, ht, htail, rfl⟩ := List.forall₂_cons_left_iff.mp hrest
    rw [Image.dropRepeated, script_alike_number hs, script_alike_number ht, if_neg hdiffer]
    exact .cons hs (ih (.cons ht htail))
  | case3 xs hshort =>
    cases h with
    | nil =>
      rw [Image.dropRepeated]
      · exact .nil
      · simp
    | cons hs hrest =>
      cases hrest with
      | nil =>
        rw [Image.dropRepeated]
        · exact .cons hs .nil
        · simp
      | cons ht hrest => exact absurd rfl (hshort _ _ _)

theorem unsorted_alike {d₁ d₂ : Draft} (h : List.Forall₂ (Script.Alike P) d₁.scripts d₂.scripts) :
    List.Forall₂ (Script.Alike P) d₁.unsorted d₂.unsorted := by
  have hrecorded : List.Forall₂ (Script.Alike P) (d₁.scripts.map Image.recorded)
      (d₂.scripts.map Image.recorded) := by
    rw [List.forall₂_map_left_iff, List.forall₂_map_right_iff]
    exact h.imp fun s t hst => ⟨by rw [hst.same]; rfl, hst.entry⟩
  have hflags : d₁.scripts.filterMap (fun s => (Draft.flagBits s).map (s.number, ·)) =
      d₂.scripts.filterMap (fun s => (Draft.flagBits s).map (s.number, ·)) :=
    filterMap_eq_of_forall₂ h fun s t hst => by rw [hst.same]; rfl
  have hlocals : d₁.scripts.filterMap (fun s => s.localCount.map (s.number, ·)) =
      d₂.scripts.filterMap (fun s => s.localCount.map (s.number, ·)) :=
    filterMap_eq_of_forall₂ h fun s t hst => by
      obtain ⟨same, -⟩ := hst
      rw [same]
  unfold Draft.unsorted
  dsimp only
  rw [hflags, hlocals]
  have hflagged := forall₂_foldl_modifyScript (fun v s => { s with flags := .truncate v })
    (fun v s t hst => ⟨by rw [hst.same], hst.entry⟩)
    (d₂.scripts.filterMap fun s => (Draft.flagBits s).map (s.number, ·)) hrecorded
  exact forall₂_foldl_modifyScript (fun v s => { s with localCount := some v })
    (fun v s t hst => ⟨by rw [hst.same], hst.entry⟩) _ hflagged

/-- Scripts of programs are alike if those of their drafts are. -/
theorem scripts_program_alike {d₁ d₂ : Draft}
    (h : List.Forall₂ (Script.Alike P) d₁.scripts d₂.scripts) (layout₁ layout₂ : Layout)
    (encoding reading : Text.Encoding) :
    List.Forall₂ (Script.Alike P) (d₁.program layout₁ encoding reading).scripts
      (d₂.program layout₂ encoding reading).scripts :=
  forall₂_dropRepeated (forall₂_mergeSort (unsorted_alike h))

theorem findScript_alike {p₁ p₂ : Program} (h : List.Forall₂ (Script.Alike P) p₁.scripts p₂.scripts)
    (n : Int32) : Option.Rel (Script.Alike P) (p₁.findScript n) (p₂.findScript n) := by
  unfold Program.findScript
  generalize p₁.scripts = xs, p₂.scripts = ys at h
  induction h with
  | nil => exact .none
  | cons hst _ ih =>
    rw [List.find?_cons, List.find?_cons, script_alike_number hst]
    split
    · exact .some hst
    · exact ih

theorem scriptsOfKind_alike {p₁ p₂ : Program}
    (h : List.Forall₂ (Script.Alike P) p₁.scripts p₂.scripts) (kind : ScriptKind) :
    p₁.scriptsOfKind kind = p₂.scriptsOfKind kind := by
  have hkind : ∀ s t : Script, s.Alike P t → t.kind? = s.kind? := by
    intro s t hst
    rw [hst.same]
    rfl
  unfold Program.scriptsOfKind
  generalize p₁.scripts = xs, p₂.scripts = ys at h
  induction h with
  | nil => rfl
  | cons hst _ ih =>
    rw [List.filter_cons, List.filter_cons, hkind _ _ hst]
    split
    · rw [List.map_cons, List.map_cons, script_alike_number hst, ih]
    · exact ih

end Programs

end LevelScript.Assembly
