import LevelScript.Proofs.Assembly.Program
import LevelScript.Proofs.Image.Duplicates

/-!
# Modules load back as declared

What a module declares can be told from its declarations alone: each script and function with what
later declarations say about it, each array with its values, and the values that variables get.
Loading the image of the module gives just this.

* `declaredScripts`, `declaredFunctions`, `declaredArrays`, `declaredWrites`: what a module says.
* `Describes`: a program is what the declarations of a module say.
* `Draft.EntriesInside`: scripts and functions start inside the code.
* `load_assemble_describes`: the image of a module loads, and its program is as declared.
-/

namespace LevelScript

/-- The script with the flags that mean something. -/
def Script.defined (s : Script) : Script := { s with flags := .truncate s.flags.bits }

namespace Assembly

open Draft (headerLength)

/-! ## What declarations say -/

namespace Declaration

/-- The offset after a declaration's code, which starts at an offset. -/
def after (width : CodeWidth) (place : Nat) (decl : Declaration) : Nat :=
  Token.reach width place (tokens decl.code)

/-- The script that is declared, with its code at an offset. -/
def script? (place : Nat) : Declaration → Option Script
  | .script number typeTag argCount _ =>
    some ⟨number, typeTag, argCount, place.toUInt32, .none, none⟩
  | _ => none

/-- The number of the script that is declared. -/
def number? : Declaration → Option Int32
  | .script number _ _ _ => some number
  | _ => none

/-- A script after a declaration that may be about its number. -/
def amend (s : Script) : Declaration → Script
  | .flags number given => if s.number = number then { s with flags := given } else s
  | .locals number count => if s.number = number then { s with localCount := some count } else s
  | _ => s

/-- The function that is declared, with no code so far. -/
def function? : Declaration → Option Function
  | .function argCount localCount hasReturn => some ⟨argCount, localCount, hasReturn, 0, 0⟩
  | .imported argCount hasReturn => some ⟨argCount, 0, hasReturn, 1, 0⟩
  | _ => none

/-- A function after a declaration that may give its code, at an offset. -/
def locate (index place : Nat) (f : Function) : Declaration → Function
  | .define defined _ =>
    if defined.toNat = index then { f with entry := place.toUInt32 } else f
  | _ => f

def array? : Declaration → Option ArrayDraft
  | .array slot init size => some ⟨slot, size, init⟩
  | _ => none

/-- The first variable and the values of a run of variables. -/
def run? : Declaration → Option (UInt32 × List Int32)
  | .mapInit first values => some (first, values)
  | _ => none

/-- Numbers are in the range of the layout's records. -/
def HasRoom (layout : Layout) : Declaration → Prop
  | .script number typeTag _ _ =>
    Image.IsShort number ∧ ∀ width, layout = .legacyChunked width → typeTag ≤ 255
  | .array _ _ size => size.toNat ≤ Image.maxArrayLength
  | _ => True

end Declaration

/-- The scripts of a module in the order of their declarations. Each has its code where it is
declared, and the flags and the number of variables that were last given for its number. -/
def declaredScripts (width : CodeWidth) : Nat → List Declaration → List Script
  | _, [] => []
  | place, decl :: rest =>
    ((decl.script? place).map fun s => rest.foldl Declaration.amend s).toList ++
      declaredScripts width (decl.after width place) rest

/-- A function after the declarations that follow its own, whose code starts at an offset. -/
def located (width : CodeWidth) (index : Nat) : Nat → List Declaration → Function → Function
  | _, [], f => f
  | place, decl :: rest, f =>
    located width index (decl.after width place) rest (decl.locate index place f)

/-- The functions of a module, numbered on from an index. Each has the code that was last given
for its number. -/
def declaredFunctions (width : CodeWidth) : Nat → Nat → List Declaration → List Function
  | _, _, [] => []
  | index, place, decl :: rest =>
    (decl.function?.map (located width index (decl.after width place) rest)).toList ++
      declaredFunctions width (index + decl.function?.toList.length) (decl.after width place) rest

/-- The arrays of a module. -/
def declaredArrays (declarations : List Declaration) : List ArrayDraft :=
  declarations.filterMap Declaration.array?

/-- First values, with zeros after them, as far as the array goes. -/
def ArrayDraft.contents (a : ArrayDraft) : Array Int32 :=
  Array.ofFn fun i : Fin a.size.toNat => a.init.getD i 0

/-- Arrays, numbered on from an index, put their numbers into variables. -/
def bindings (index : Nat) (arrays : List ArrayDraft) : List (Nat × Int32) :=
  (arrays.zipIdx index).map fun a => (a.1.slot.toNat, Int32.ofNat a.2)

/-- Values for variables one after another. -/
def runWrites (run : UInt32 × List Int32) : List (Nat × Int32) :=
  (run.2.zipIdx run.1.toNat).map fun v => (v.2, v.1)

/-- The variables that a module writes at first, in order: those for arrays, then runs. -/
def declaredWrites (declarations : List Declaration) : List (Nat × Int32) :=
  bindings 0 (declaredArrays declarations) ++
    (declarations.filterMap Declaration.run?).flatMap runWrites

/-- What a variable holds after writes. -/
def latest (i : Nat) (v : Int32) (writes : List (Nat × Int32)) : Int32 :=
  writes.foldl (fun v w => if w.1 = i then w.2 else v) v

/-- The program is what the declarations of a module say, put together in a layout. -/
structure Describes (layout : Layout) (declarations : List Declaration) (p : Program) : Prop where
  layout_eq : p.layout = layout
  ascending : p.scripts.Pairwise (·.number < ·.number)
  scripts : p.scripts.Perm
    ((declaredScripts layout.codeWidth headerLength declarations).map Script.defined)
  functions : p.functions.toList =
    declaredFunctions layout.codeWidth 0 headerLength declarations
  arrays : p.memory.arrays.toList = (declaredArrays declarations).map ArrayDraft.contents
  /-- Variables are zero at first; there is no variable for writes out of range. -/
  vars : ∀ i (h : i < mapVarCount), p.memory.vars[i] = latest i 0 (declaredWrites declarations)

/-! ## Declaring one by one -/

namespace Draft

theorem size_foldl_emitToken (d : Draft) (ts : List Token) :
    (ts.foldl emitToken d).code.size = Token.reach d.width d.code.size ts := by
  induction ts generalizing d with
  | nil => rfl
  | cons t rest ih =>
    have hsize : (d.emitToken t).code.size = d.code.size + t.size d.width d.code.size := by
      rw [emitToken, ← Array.length_toList, Array.toList_appendList, List.length_append,
        Array.length_toList, Token.size]
    rw [List.foldl_cons, ih, hsize]
    rfl

theorem size_emitItem (d : Draft) (item : CodeItem) :
    (d.emitItem item).code.size = Token.reach d.width d.code.size item.tokens := by
  by_cases hitem : ∃ bound, item = .bind bound
  · obtain ⟨bound, rfl⟩ := hitem
    rfl
  · rw [emitItem_eq d fun label heq => hitem ⟨label, heq⟩, size_foldl_emitToken]

theorem size_emitCode (d : Draft) (code : List CodeItem) :
    (d.emitCode code).code.size = Token.reach d.width d.code.size (tokens code) := by
  unfold emitCode
  induction code generalizing d with
  | nil => rfl
  | cons item rest ih =>
    have hwidth : (d.emitItem item).width = d.width := by rw [emitItem_keeps]
    rw [List.foldl_cons, ih, size_emitItem, hwidth, ← Token.reach_append]
    rfl

theorem size_declare (d : Draft) (decl : Declaration) :
    (d.declare decl).code.size = decl.after d.width d.code.size := by
  cases decl with
  | script number typeTag argCount code => exact size_emitCode _ code
  | define function code => exact size_emitCode _ code
  | _ => rfl

/-- Of scripts with different numbers, only the first with a number has it. -/
theorem modify_findIdx_number {scripts : List Script} (h : (scripts.map (·.number)).Nodup)
    (number : Int32) (f : Script → Script) :
    scripts.modify (scripts.findIdx (·.number == number)) f =
      scripts.map fun s => if s.number = number then f s else s := by
  induction scripts with
  | nil => rfl
  | cons s rest ih =>
    rw [List.map_cons, List.nodup_cons] at h
    rw [List.findIdx_cons, List.map_cons]
    by_cases hs : s.number = number
    · have hrest : (rest.map fun s => if s.number = number then f s else s) = rest.map id := by
        refine List.map_congr_left fun t ht => if_neg fun heq => h.1 ?_
        exact hs.trans heq.symm ▸ List.mem_map_of_mem ht
      rw [hrest, List.map_id, if_pos hs, beq_iff_eq.mpr hs]
      rfl
    · rw [if_neg hs, beq_false_of_ne hs, ← ih h.2]
      rfl

@[simp] theorem amend_number (s : Script) (decl : Declaration) :
    (decl.amend s).number = s.number := by
  cases decl with
  | flags number given => rw [Declaration.amend]; split <;> rfl
  | locals number count => rw [Declaration.amend]; split <;> rfl
  | _ => rfl

theorem scripts_declare (d : Draft) (h : (d.scripts.map (·.number)).Nodup) (decl : Declaration) :
    (d.declare decl).scripts =
      d.scripts.map decl.amend ++ (decl.script? d.code.size).toList := by
  have hsame : d.scripts = d.scripts.map (fun s => s) ++ [] := by simp
  cases decl with
  | script number typeTag argCount code =>
    rw [declare, emitCode_keeps]
    exact congrArg (· ++ _) (List.map_id' _).symm
  | flags number given => exact (modify_findIdx_number h number _).trans (List.append_nil _).symm
  | locals number count => exact (modify_findIdx_number h number _).trans (List.append_nil _).symm
  | define function code =>
    rw [declare, emitCode_keeps]
    exact hsame
  | _ => exact hsame

theorem modify_eq_mapIdx {α : Type} (xs : List α) (i : Nat) (f : α → α) :
    xs.modify i f = xs.mapIdx fun k x => if i = k then f x else x := by
  apply List.ext_getElem?
  intro k
  rw [List.getElem?_modify, List.getElem?_mapIdx]
  split <;> simp

theorem mapIdx_same {α : Type} (xs : List α) : xs.mapIdx (fun _ x => x) = xs := by
  apply List.ext_getElem?
  simp

theorem functions_declare (d : Draft) (decl : Declaration) :
    (d.declare decl).functions.toList =
      d.functions.toList.mapIdx (fun k f => decl.locate k d.code.size f) ++
        decl.function?.toList := by
  have hkept : d.functions.toList = d.functions.toList.mapIdx (fun _ f => f) ++ [] := by
    rw [mapIdx_same, List.append_nil]
  cases decl with
  | script number typeTag argCount code =>
    rw [declare, emitCode_keeps]
    exact hkept
  | define function code =>
    rw [declare, emitCode_keeps]
    show (d.functions.modify _ _).toList = _
    rw [Array.toList_modify, modify_eq_mapIdx]
    exact (List.append_nil _).symm
  | function argCount localCount hasReturn =>
    exact Array.toList_push.trans (congrArg (· ++ _) (mapIdx_same _).symm)
  | imported argCount hasReturn =>
    exact Array.toList_push.trans (congrArg (· ++ _) (mapIdx_same _).symm)
  | _ => exact hkept

theorem arrays_declare (d : Draft) (decl : Declaration) :
    (d.declare decl).arrays = d.arrays ++ decl.array?.toList := by
  cases decl with
  | script number typeTag argCount code =>
    rw [declare, emitCode_keeps]
    exact (List.append_nil _).symm
  | define function code =>
    rw [declare, emitCode_keeps]
    exact (List.append_nil _).symm
  | array slot init size => rfl
  | _ => exact (List.append_nil _).symm

theorem mapInits_declare (d : Draft) (decl : Declaration) :
    (d.declare decl).mapInits = d.mapInits ++ decl.run?.toList := by
  cases decl with
  | script number typeTag argCount code =>
    rw [declare, emitCode_keeps]
    exact (List.append_nil _).symm
  | define function code =>
    rw [declare, emitCode_keeps]
    exact (List.append_nil _).symm
  | mapInit first values => rfl
  | _ => exact (List.append_nil _).symm

/-! ## Declaring all -/

theorem map_number_amend (scripts : List Script) (decl : Declaration) :
    (scripts.map decl.amend).map (·.number) = scripts.map (·.number) := by
  simp [Function.comp_def]

theorem number?_eq (decl : Declaration) (place : Nat) :
    (decl.script? place).map (·.number) = decl.number? := by
  cases decl <;> rfl

/-- Later declarations change scripts by their numbers, and add those that they declare. -/
theorem scripts_foldl_declare (declarations : List Declaration) (d : Draft)
    (h : (d.scripts.map (·.number) ++ declarations.filterMap Declaration.number?).Nodup) :
    (declarations.foldl declare d).scripts =
      d.scripts.map (declarations.foldl Declaration.amend ·) ++
        declaredScripts d.width d.code.size declarations := by
  induction declarations generalizing d with
  | nil => simp [declaredScripts]
  | cons decl rest ih =>
    have hscripts := scripts_declare d (List.nodup_append.mp h).1 decl
    have hnumbers : (d.declare decl).scripts.map (·.number) =
        d.scripts.map (·.number) ++ decl.number?.toList := by
      rw [hscripts, List.map_append, map_number_amend, ← number?_eq decl d.code.size]
      cases decl.script? d.code.size <;> rfl
    have hcons : (decl :: rest).filterMap Declaration.number? =
        decl.number?.toList ++ rest.filterMap Declaration.number? := by
      rw [List.filterMap_cons]
      cases decl.number? <;> rfl
    rw [List.foldl_cons, ih _ (by rwa [hnumbers, List.append_assoc, ← hcons]), hscripts,
      size_declare, declare_width, declaredScripts, List.map_append, List.map_map,
      List.append_assoc]
    cases decl.script? d.code.size <;> rfl

/-- Later declarations give functions their code, and add those that they declare. -/
theorem functions_foldl_declare (declarations : List Declaration) (d : Draft) :
    (declarations.foldl declare d).functions.toList =
      d.functions.toList.mapIdx (fun k f => located d.width k d.code.size declarations f) ++
        declaredFunctions d.width d.functions.size d.code.size declarations := by
  induction declarations generalizing d with
  | nil =>
    simp only [declaredFunctions, located, mapIdx_same, List.append_nil, List.foldl_nil]
  | cons decl rest ih =>
    have hfunctions := functions_declare d decl
    have hsize : (d.declare decl).functions.size =
        d.functions.size + decl.function?.toList.length := by
      rw [← Array.length_toList, hfunctions, List.length_append, List.length_mapIdx,
        Array.length_toList]
    rw [List.foldl_cons, ih, hfunctions, hsize, size_declare, declare_width, declaredFunctions,
      List.mapIdx_append, List.mapIdx_mapIdx, List.append_assoc, List.length_mapIdx,
      Array.length_toList]
    cases decl.function? with
    | none => rfl
    | some f => simp [located, Function.comp_def]

theorem arrays_foldl_declare (declarations : List Declaration) (d : Draft) :
    (declarations.foldl declare d).arrays = d.arrays ++ declaredArrays declarations := by
  induction declarations generalizing d with
  | nil => simp [declaredArrays]
  | cons decl rest ih =>
    rw [List.foldl_cons, ih, arrays_declare, declaredArrays, declaredArrays, List.filterMap_cons]
    cases decl.array? <;> simp

theorem mapInits_foldl_declare (declarations : List Declaration) (d : Draft) :
    (declarations.foldl declare d).mapInits =
      d.mapInits ++ declarations.filterMap Declaration.run? := by
  induction declarations generalizing d with
  | nil => simp
  | cons decl rest ih =>
    rw [List.foldl_cons, ih, mapInits_declare, List.filterMap_cons]
    cases decl.run? <;> simp

/-! ## Room in records -/

/-- Scripts and functions start inside the code. -/
structure EntriesInside (d : Draft) : Prop where
  scripts : ∀ s ∈ d.scripts, s.entry.toNat ≤ d.code.size
  functions : ∀ f ∈ d.functions.toList, f.entry.toNat ≤ d.code.size

theorem here_le (d : Draft) : d.here.toNat ≤ d.code.size := by
  rw [here, Nat.toUInt32, UInt32.toNat_ofNat']
  exact Nat.mod_le _ _

theorem forall_mem_modify {α : Type} {Q : α → Prop} {xs : List α} (h : ∀ x ∈ xs, Q x) {f : α → α}
    (hf : ∀ x, Q x → Q (f x)) (i : Nat) : ∀ x ∈ xs.modify i f, Q x := by
  rw [modify_eq_mapIdx]
  intro y hy
  obtain ⟨k, hk, rfl⟩ := List.mem_mapIdx.mp hy
  have hx := h _ (List.getElem_mem hk)
  split
  · exact hf _ hx
  · exact hx

theorem EntriesInside.emitCode {d : Draft} (h : d.EntriesInside) (code : List CodeItem) :
    (d.emitCode code).EntriesInside := by
  have hle : d.code.size ≤ (d.emitCode code).code.size := by
    rw [size_emitCode]
    exact Token.le_reach _
  rw [emitCode_keeps]
  exact ⟨fun s hs => Nat.le_trans (h.scripts s hs) hle,
    fun f hf => Nat.le_trans (h.functions f hf) hle⟩

theorem EntriesInside.addFunction {d : Draft} (h : d.EntriesInside) {f : Function}
    (hentry : f.entry = 0) : { d with functions := d.functions.push f }.EntriesInside := by
  refine ⟨h.scripts, ?_⟩
  show ∀ g ∈ (d.functions.push f).toList, g.entry.toNat ≤ d.code.size
  rw [Array.toList_push]
  exact List.forall_mem_append.mpr ⟨h.functions, by simp [hentry]⟩

theorem EntriesInside.modifyScript {d : Draft} (h : d.EntriesInside) (number : Int32)
    {f : Script → Script} (hentry : ∀ s, (f s).entry = s.entry) :
    (d.modifyScript number f).EntriesInside :=
  ⟨forall_mem_modify h.scripts (fun s hs => hentry s ▸ hs) _, h.functions⟩

theorem EntriesInside.declare {d : Draft} (h : d.EntriesInside) (decl : Declaration) :
    (d.declare decl).EntriesInside := by
  cases decl with
  | script number typeTag argCount code =>
    rw [Draft.declare]
    refine EntriesInside.emitCode ?_ code
    refine ⟨?_, h.functions⟩
    exact List.forall_mem_append.mpr ⟨h.scripts, by simpa using d.here_le⟩
  | flags number given => exact h.modifyScript _ fun _ => rfl
  | locals number count => exact h.modifyScript _ fun _ => rfl
  | function argCount localCount hasReturn => exact h.addFunction rfl
  | imported argCount hasReturn => exact h.addFunction rfl
  | define function code =>
    rw [Draft.declare]
    refine EntriesInside.emitCode ?_ code
    refine ⟨h.scripts, ?_⟩
    show ∀ f ∈ (d.functions.modify _ _).toList, f.entry.toNat ≤ d.code.size
    rw [Array.toList_modify]
    exact forall_mem_modify h.functions (fun _ _ => d.here_le) _
  | _ => exact ⟨h.scripts, h.functions⟩

theorem entriesInside_ofDeclarations (width : CodeWidth) (declarations : List Declaration) :
    (ofDeclarations width declarations).EntriesInside := by
  have hfold : ∀ d : Draft,
      d.EntriesInside → (declarations.foldl Draft.declare d).EntriesInside := by
    induction declarations with
    | nil => exact fun d hd => hd
    | cons decl rest ih => exact fun d hd => ih _ (hd.declare decl)
  exact hfold _ ⟨by simp [empty], by simp [empty]⟩

/-- Values for scripts leave the room of their records. -/
theorem Loadable.modifyScript {layout : Layout} {d : Draft} (h : d.Loadable layout)
    (number : Int32) {f : Script → Script} (hnumber : ∀ s, (f s).number = s.number)
    (htag : ∀ s, (f s).typeTag = s.typeTag) : (d.modifyScript number f).Loadable layout where
  numbers := forall_mem_modify h.numbers (fun s hs => hnumber s ▸ hs) _
  tags width hwidth := forall_mem_modify (h.tags width hwidth) (fun s hs => htag s ▸ hs) _
  arrays := h.arrays

theorem Loadable.declare {layout : Layout} {d : Draft} (h : d.Loadable layout) {decl : Declaration}
    (hroom : decl.HasRoom layout) : (d.declare decl).Loadable layout := by
  have hnumbers := h.numbers
  have htags := h.tags
  have harrays := h.arrays
  cases decl with
  | script number typeTag argCount code =>
    obtain ⟨hnumber, htag⟩ := hroom
    rw [Draft.declare, emitCode_keeps]
    refine ⟨?_, fun width hwidth => ?_, harrays⟩
    · exact List.forall_mem_append.mpr ⟨hnumbers, by simpa using hnumber⟩
    · exact List.forall_mem_append.mpr ⟨htags width hwidth, by simpa using htag width hwidth⟩
  | flags number given => exact h.modifyScript _ (fun _ => rfl) fun _ => rfl
  | locals number count => exact h.modifyScript _ (fun _ => rfl) fun _ => rfl
  | define function code =>
    rw [Draft.declare, emitCode_keeps]
    exact ⟨hnumbers, htags, harrays⟩
  | array slot init size =>
    have hsize : size.toNat ≤ Image.maxArrayLength := hroom
    exact ⟨hnumbers, htags, List.forall_mem_append.mpr ⟨harrays, by simpa using hsize⟩⟩
  | _ => exact ⟨hnumbers, htags, harrays⟩

/-- Records have room for what a module declares if its numbers are in range. -/
theorem loadable_ofDeclarations {layout : Layout} (width : CodeWidth)
    {declarations : List Declaration} (h : ∀ decl ∈ declarations, decl.HasRoom layout) :
    (ofDeclarations width declarations).Loadable layout := by
  have hfold : ∀ d : Draft, d.Loadable layout →
      (declarations.foldl Draft.declare d).Loadable layout := by
    induction declarations with
    | nil => exact fun d hd => hd
    | cons decl rest ih =>
      intro d hd
      exact ih (fun decl hdecl => h decl (List.mem_cons_of_mem _ hdecl)) _
        (hd.declare (h decl List.mem_cons_self))
  exact hfold _ ⟨by simp [empty], by simp [empty], by simp [empty]⟩

/-! ## Scripts in order -/

theorem modifyScript_of_first {front : List Script} {number : Int32}
    (h : ∀ s ∈ front, s.number ≠ number) {s : Script} (hs : s.number = number)
    (f : Script → Script) (rest : List Script) :
    Image.modifyScript number f (front ++ s :: rest) = front ++ f s :: rest := by
  induction front with
  | nil => simp [Image.modifyScript, hs]
  | cons t front ih =>
    have ht : (t.number == number) = false := beq_false_of_ne (h t List.mem_cons_self)
    rw [List.cons_append, Image.modifyScript, ht,
      ih fun s hs => h s (List.mem_cons_of_mem _ hs)]
    rfl

/-- If numbers differ, each script gets the value of its own record. -/
theorem foldl_modifyScript (set : UInt16 → Script → Script)
    (hset : ∀ v s, (set v s).number = s.number) (value : Script → Option UInt16)
    (view : Script → Script) (hview : ∀ s, (view s).number = s.number) (scripts front : List Script)
    (hfront : ∀ s ∈ front, ∀ t ∈ scripts, s.number ≠ t.number)
    (h : (scripts.map (·.number)).Nodup) :
    (scripts.filterMap fun s => (value s).map (s.number, ·)).foldl
        (fun scripts pair => Image.modifyScript pair.1 (set pair.2) scripts)
        (front ++ scripts.map view) =
      front ++ scripts.map fun s => (value s).elim (view s) (set · (view s)) := by
  induction scripts generalizing front with
  | nil => rfl
  | cons s rest ih =>
    rw [List.map_cons, List.nodup_cons] at h
    -- Once a script is done, it joins those in front, which later records leave alone.
    have hjoin : ∀ t : Script, t.number = s.number →
        ∀ u ∈ front ++ [t], ∀ v ∈ rest, u.number ≠ v.number := by
      intro t ht
      refine List.forall_mem_append.mpr
        ⟨fun u hu v hv => hfront u hu v (List.mem_cons_of_mem _ hv), ?_⟩
      intro u hu v hv heq
      rw [List.mem_singleton.mp hu, ht] at heq
      exact h.1 (heq ▸ List.mem_map_of_mem hv)
    rw [List.filterMap_cons, List.map_cons, List.map_cons]
    cases hvalue : value s with
    | none =>
      have hrest := ih (front ++ [view s]) (hjoin _ (hview s)) h.2
      simpa using hrest
    | some v =>
      have hfirst : ∀ t ∈ front, t.number ≠ s.number :=
        fun t ht => hfront t ht s List.mem_cons_self
      have hrest := ih (front ++ [set v (view s)]) (hjoin _ ((hset v _).trans (hview s))) h.2
      rw [Option.map_some, List.foldl_cons, modifyScript_of_first hfirst (hview s)]
      simpa using hrest

/-- The script with its flags, as read: without a record there are none. -/
def flagged (s : Script) : Script := { s with flags := .truncate s.flags.bits, localCount := none }

theorem flagBits_elim (s : Script) :
    (flagBits s).elim (Image.recorded s) (fun v => { Image.recorded s with flags := .truncate v }) =
      flagged s := by
  unfold flagBits
  split
  · rename_i hnone
    rw [flagged, beq_iff_eq.mp hnone]
    rfl
  · rfl

theorem unsorted_eq {d : Draft} (h : (d.scripts.map (·.number)).Nodup) :
    d.unsorted = d.scripts.map Script.defined := by
  have hflags := foldl_modifyScript (fun v s => { s with flags := .truncate v }) (fun _ _ => rfl)
    flagBits Image.recorded (fun _ => rfl) d.scripts [] (by simp) h
  have hlocals := foldl_modifyScript (fun v s => { s with localCount := some v }) (fun _ _ => rfl)
    Script.localCount flagged (fun _ => rfl) d.scripts [] (by simp) h
  simp only [List.nil_append, flagBits_elim] at hflags hlocals
  unfold unsorted
  simp only [hflags, hlocals]
  refine List.map_congr_left fun s _ => ?_
  obtain ⟨number, typeTag, argCount, entry, flags, localCount⟩ := s
  cases localCount <;> rfl

theorem dropRepeated_of_ascending {scripts : List Script}
    (h : scripts.Pairwise (·.number < ·.number)) : Image.dropRepeated scripts = scripts := by
  induction scripts with
  | nil => rw [Image.dropRepeated]; simp
  | cons s rest ih =>
    rw [List.pairwise_cons] at h
    cases rest with
    | nil => rw [Image.dropRepeated]; simp
    | cons t rest =>
      have hlt := h.1 t List.mem_cons_self
      have hne : (s.number == t.number) = false := by
        refine beq_false_of_ne fun heq => ?_
        rw [heq] at hlt
        exact Int32.lt_irrefl hlt
      rw [Image.dropRepeated, hne, ih h.2]
      rfl

/-- Scripts with different numbers, in order. -/
theorem ascending_mergeSort {scripts : List Script} (h : (scripts.map (·.number)).Nodup) :
    (scripts.mergeSort fun s t => s.number ≤ t.number).Pairwise (·.number < ·.number) := by
  have hnodup : (scripts.mergeSort fun s t => s.number ≤ t.number).Pairwise
      fun s t => s.number ≠ t.number :=
    List.pairwise_map.mp (((List.mergeSort_perm scripts _).map _).nodup_iff.mpr h)
  exact (Image.sorted_mergeSort scripts).imp₂ (fun _ _ => Int32.lt_of_le_of_ne) hnodup

/-! ## Memory -/

theorem latest_append (i : Nat) (v : Int32) (ws ws' : List (Nat × Int32)) :
    latest i v (ws ++ ws') = latest i (latest i v ws) ws' :=
  List.foldl_append

/-- Writes variables in order. -/
def writeAll (m : MapMemory) (writes : List (Nat × Int32)) : MapMemory :=
  writes.foldl (fun m w => m.setVar w.1 w.2) m

theorem arrays_writeAll (m : MapMemory) (writes : List (Nat × Int32)) :
    (writeAll m writes).arrays = m.arrays := by
  induction writes generalizing m with
  | nil => rfl
  | cons w rest ih => exact ih _

theorem vars_writeAll (writes : List (Nat × Int32)) (m : MapMemory) {i : Nat}
    (h : i < mapVarCount) : (writeAll m writes).vars[i] = latest i m.vars[i] writes := by
  induction writes generalizing m with
  | nil => rfl
  | cons w rest ih =>
    have hset : (m.setVar w.1 w.2).vars[i] = if w.1 = i then w.2 else m.vars[i] :=
      Vector.getElem_setIfInBounds h
    exact (ih _).trans (congrArg (latest i · rest) hset)

theorem assigned_eq (m : MapMemory) (first : UInt32) (values : List Int32) :
    Image.assigned m first (values.map Int32.toUInt32) =
      writeAll m (runWrites (first, values)) := by
  unfold Image.assigned runWrites
  dsimp only
  generalize first.toNat = place
  induction values generalizing m place with
  | nil => rfl
  | cons v rest ih => exact ih _ _

theorem foldl_assigned (runs : List (UInt32 × List Int32)) (m : MapMemory) :
    runs.foldl (fun m r => Image.assigned m r.1 (r.2.map Int32.toUInt32)) m =
      writeAll m (runs.flatMap runWrites) := by
  induction runs generalizing m with
  | nil => rfl
  | cons r rest ih =>
    rw [List.foldl_cons, ih, assigned_eq, List.flatMap_cons, writeAll, writeAll, writeAll,
      List.foldl_append]

/-- An array before it has values. -/
def blank (a : ArrayDraft) : Array Int32 := Array.replicate a.size.toNat 0

theorem vars_foldl_declared (arrays : List ArrayDraft) (m : MapMemory) {i : Nat}
    (h : i < mapVarCount) :
    (arrays.foldl (fun m a => Image.declared m (a.slot, a.size)) m).vars[i] =
      latest i m.vars[i] (bindings m.arrays.size arrays) := by
  induction arrays generalizing m with
  | nil => rfl
  | cons a rest ih =>
    have hset : (Image.declared m (a.slot, a.size)).vars[i] =
        if a.slot.toNat = i then Int32.ofNat m.arrays.size else m.vars[i] :=
      Vector.getElem_setIfInBounds h
    have hsize : (Image.declared m (a.slot, a.size)).arrays.size = m.arrays.size + 1 :=
      Array.size_push _
    rw [List.foldl_cons, ih, hset, hsize]
    rfl

theorem arrays_foldl_declared (arrays : List ArrayDraft) (m : MapMemory) :
    (arrays.foldl (fun m a => Image.declared m (a.slot, a.size)) m).arrays.toList =
      m.arrays.toList ++ arrays.map blank := by
  induction arrays generalizing m with
  | nil => exact (List.append_nil _).symm
  | cons a rest ih =>
    have hpush : (Image.declared m (a.slot, a.size)).arrays.toList = m.arrays.toList ++ [blank a] :=
      Array.toList_push
    rw [List.foldl_cons, ih, hpush, List.append_assoc]
    rfl

/-- Values stand one after another, as far as the array goes. -/
theorem getElem?_writeFrom (values : List Int32) (start : Nat) (a : Array Int32) {i : Nat}
    (hi : i < a.size) :
    (Image.writeFrom start (values.map Int32.toUInt32) a)[i]? =
      if start ≤ i then values[i - start]?.or a[i]? else a[i]? := by
  induction values generalizing start a with
  | nil => simp [Image.writeFrom]
  | cons v rest ih =>
    rw [List.map_cons, Image.writeFrom_cons, ih _ _ (by rwa [Array.size_setIfInBounds]),
      Array.getElem?_setIfInBounds]
    obtain hlt | rfl | hgt := Nat.lt_trichotomy i start
    · rw [if_neg (by omega), if_neg (by omega), if_neg (by omega)]
    · rw [if_neg (by omega), if_pos rfl, if_pos hi, if_pos (Nat.le_refl _), Nat.sub_self]
      rfl
    · have hindex : i - start = (i - (start + 1)) + 1 := by omega
      rw [if_pos (by omega), if_neg (by omega), if_pos (by omega), hindex, List.getElem?_cons_succ]

theorem writeFrom_blank (a : ArrayDraft) :
    Image.writeFrom 0 (a.init.map Int32.toUInt32) (blank a) = a.contents := by
  have hblank : (blank a).size = a.size.toNat := Array.size_replicate
  have hcontents : a.contents.size = a.size.toNat := Array.size_ofFn
  refine Array.ext (by rw [Image.size_writeFrom, hblank, hcontents]) fun i _ hi => ?_
  rw [hcontents] at hi
  have hvalue := getElem?_writeFrom a.init 0 (blank a) (hblank ▸ hi)
  apply Option.some_inj.mp
  rw [← Array.getElem?_eq_getElem, hvalue]
  cases hinit : a.init[i]? <;> simp [ArrayDraft.contents, blank, hi, hinit]

/-- An array without values of its own keeps its zeros. -/
theorem fill_eq (m : MapMemory) (a : ArrayDraft × Nat) :
    (if !a.1.init.isEmpty then
      Image.filled m a.2.toUInt32 (a.1.init.map Int32.toUInt32) else m) =
      Image.filled m a.2.toUInt32 (a.1.init.map Int32.toUInt32) := by
  split
  · rfl
  · rename_i hempty
    have hinit : a.1.init = [] := by simpa using hempty
    have hsame : m.arrays.modify a.2.toUInt32.toNat (Image.writeFrom 0 []) = m.arrays := by
      apply Array.toList_inj.mp
      rw [Array.toList_modify]
      exact List.modify_id _ _
    rw [hinit, Image.filled, List.map_nil, hsame]

theorem vars_foldl_filled (arrays : List (ArrayDraft × Nat)) (m : MapMemory) :
    (arrays.foldl (fun m a => Image.filled m a.2.toUInt32 (a.1.init.map Int32.toUInt32)) m).vars =
      m.vars := by
  induction arrays generalizing m with
  | nil => rfl
  | cons a rest ih => exact ih _

/-- Each array is filled with its own values, since numbers of arrays fit into a word. -/
theorem arrays_foldl_filled (arrays : List ArrayDraft) (m : MapMemory)
    (front : List (Array Int32)) (hm : m.arrays.toList = front ++ arrays.map blank)
    (hfit : front.length + arrays.length ≤ 2 ^ 32) :
    ((arrays.zipIdx front.length).foldl
      (fun m a => Image.filled m a.2.toUInt32 (a.1.init.map Int32.toUInt32)) m).arrays.toList =
        front ++ arrays.map ArrayDraft.contents := by
  induction arrays generalizing m front with
  | nil => exact hm
  | cons a rest ih =>
    rw [List.length_cons] at hfit
    have hnumber : front.length.toUInt32.toNat = front.length :=
      UInt32.toNat_ofNat_of_lt' (show front.length < 2 ^ 32 by omega)
    have hfilled : (Image.filled m front.length.toUInt32
        (a.init.map Int32.toUInt32)).arrays.toList = (front ++ [a.contents]) ++ rest.map blank := by
      show (m.arrays.modify _ _).toList = _
      rw [Array.toList_modify, hnumber, hm, List.append_assoc]
      have hmodify := List.modifyTailIdx_add
        (List.modifyHead (Image.writeFrom 0 (a.init.map Int32.toUInt32))) 0 front
        ((a :: rest).map blank)
      rw [Nat.add_zero] at hmodify
      rw [← writeFrom_blank]
      exact hmodify
    have hstep := ih _ (front ++ [a.contents]) hfilled (by simp; omega)
    simpa using hstep

/-- Memory is what the arrays and runs say. -/
theorem memory_arrays {d : Draft} (h : d.arrays.length ≤ 2 ^ 32) :
    d.memory.arrays.toList = d.arrays.map ArrayDraft.contents := by
  have hdeclared := arrays_foldl_declared d.arrays MapMemory.empty
  have hfilled := arrays_foldl_filled d.arrays _ [] hdeclared (by simpa using h)
  unfold memory
  simp only [foldl_assigned, arrays_writeAll, List.foldl_filter, fill_eq]
  exact hfilled

theorem memory_vars (d : Draft) {i : Nat} (h : i < mapVarCount) :
    d.memory.vars[i] =
      latest i 0 (bindings 0 d.arrays ++ d.mapInits.flatMap runWrites) := by
  have hdeclared := vars_foldl_declared d.arrays MapMemory.empty h
  have hzero : MapMemory.empty.vars[i] = 0 := Vector.getElem_replicate h
  unfold memory
  simp only [foldl_assigned]
  rw [vars_writeAll _ _ h, latest_append]
  simp only [vars_foldl_filled, hdeclared, hzero]
  rfl

theorem length_le_chunkUnlessEmpty (kind : ChunkKind) (payload : List UInt8) :
    payload.length ≤ (chunkUnlessEmpty kind payload).length := by
  unfold chunkUnlessEmpty
  split
  · rename_i hempty
    simp [List.isEmpty_iff.mp hempty]
  · rw [chunk, Chunk.encode, List.length_append]
    exact Nat.le_add_left _ _

/-- An image of less than four gigabytes has fewer arrays than words. -/
theorem Holds.length_arrays_le {d : Draft} {items : List CodeItem} (h : d.Holds items)
    {layout : Layout} (hlayout : layout ≠ .legacy) {encoding : Text.Encoding}
    (hsize : (d.image encoding layout).size < 2 ^ 32) : d.arrays.length ≤ 2 ^ 32 := by
  obtain ⟨-, -, hdrop, -⟩ := h.stands hlayout encoding
  have hlength := congrArg List.length hdrop
  rw [List.length_drop, Array.length_toList] at hlength
  have hpayload : (d.arrays.flatMap fun a => Bytes.le32 a.slot ++ Bytes.le32 a.size).length =
      d.arrays.length * 8 := by
    simp [List.length_flatMap, Bytes.length_le32]
  have hchunk := length_le_chunkUnlessEmpty .aray
    (d.arrays.flatMap fun a => Bytes.le32 a.slot ++ Bytes.le32 a.size)
  have hchunks : (chunkUnlessEmpty .aray
      (d.arrays.flatMap fun a => Bytes.le32 a.slot ++ Bytes.le32 a.size)).length ≤
        (d.chunks (scriptRecord layout) encoding).length := by
    simp only [chunks, List.length_append]
    omega
  omega

end Draft

/-! ## Loading -/

section Modules

variable (width : CodeWidth) (declarations : List Declaration)

theorem scripts_ofDeclarations (h : (declarations.filterMap Declaration.number?).Nodup) :
    (Draft.ofDeclarations width declarations).scripts =
      declaredScripts width headerLength declarations :=
  Draft.scripts_foldl_declare declarations (Draft.empty width) h

theorem functions_ofDeclarations : (Draft.ofDeclarations width declarations).functions.toList =
    declaredFunctions width 0 headerLength declarations :=
  Draft.functions_foldl_declare declarations (Draft.empty width)

theorem arrays_ofDeclarations :
    (Draft.ofDeclarations width declarations).arrays = declaredArrays declarations :=
  Draft.arrays_foldl_declare declarations (Draft.empty width)

theorem mapInits_ofDeclarations : (Draft.ofDeclarations width declarations).mapInits =
    declarations.filterMap Declaration.run? :=
  Draft.mapInits_foldl_declare declarations (Draft.empty width)

/-- Later declarations leave the numbers of scripts alone. -/
theorem map_number_declaredScripts (place : Nat) :
    (declaredScripts width place declarations).map (·.number) =
      declarations.filterMap Declaration.number? := by
  have hamend : ∀ (rest : List Declaration) (s : Script),
      (rest.foldl Declaration.amend s).number = s.number := by
    intro rest
    induction rest with
    | nil => exact fun _ => rfl
    | cons decl rest ih => exact fun s => (ih _).trans (Draft.amend_number s decl)
  induction declarations generalizing place with
  | nil => rfl
  | cons decl rest ih =>
    rw [declaredScripts, List.map_append, ih, List.filterMap_cons, ← Draft.number?_eq decl place]
    cases decl.script? place with
    | none => rfl
    | some s => exact congrArg (· :: _) (hamend rest s)

end Modules

/-- The image of a module loads as the program of its draft. -/
theorem gives_load_assemble {layout : Layout} (hlayout : layout ≠ .legacy)
    {declarations : List Declaration} (hroom : ∀ decl ∈ declarations, decl.HasRoom layout)
    {encoding : Text.Encoding} (hsize : (assemble layout encoding declarations).1.size < 2 ^ 32)
    (reading : Text.Encoding) :
    Loading.Gives (Image.load (assemble layout encoding declarations).1 reading)
      ((Draft.ofDeclarations layout.codeWidth declarations).program layout encoding reading) := by
  have hholds := Draft.holds_ofDeclarations layout.codeWidth declarations
  have hinside := Draft.entriesInside_ofDeclarations layout.codeWidth declarations
  exact hholds.gives_load hlayout (Draft.loadable_ofDeclarations layout.codeWidth hroom) encoding
    hsize hinside.scripts hinside.functions reading

/-- The image of a module loads, and gives what its declarations say. -/
theorem load_assemble_describes (layout : Layout) (encoding reading : Text.Encoding)
    (declarations : List Declaration) (hlayout : layout ≠ .legacy)
    (hnumbers : (declarations.filterMap Declaration.number?).Nodup)
    (hroom : ∀ decl ∈ declarations, decl.HasRoom layout)
    (hsize : (assemble layout encoding declarations).1.size < 2 ^ 32) :
    ∃ p, Loading.Gives (Image.load (assemble layout encoding declarations).1 reading) p ∧
      Describes layout declarations p := by
  have hholds := Draft.holds_ofDeclarations layout.codeWidth declarations
  have hload := gives_load_assemble hlayout hroom hsize reading
  have hscripts := scripts_ofDeclarations layout.codeWidth declarations hnumbers
  have hnodup : ((Draft.ofDeclarations layout.codeWidth declarations).scripts.map
      (·.number)).Nodup := by
    rw [hscripts, map_number_declaredScripts]
    exact hnumbers
  have hunsorted := Draft.unsorted_eq hnodup
  have hdefined : ((Draft.ofDeclarations layout.codeWidth declarations).unsorted.map
      (·.number)).Nodup := by
    rw [hunsorted, List.map_map]
    exact hnodup
  have hascending := Draft.ascending_mergeSort hdefined
  have hkept := Draft.dropRepeated_of_ascending hascending
  have harrays := Draft.memory_arrays (hholds.length_arrays_le hlayout hsize)
  refine ⟨_, hload, rfl, ?_, ?_, functions_ofDeclarations _ _, ?_, fun i hi => ?_⟩
  · show (Image.dropRepeated _).Pairwise _
    rw [hkept]
    exact hascending
  · show (Image.dropRepeated _).Perm _
    rw [hkept, ← hscripts, ← hunsorted]
    exact List.mergeSort_perm _ _
  · rw [← arrays_ofDeclarations layout.codeWidth]
    exact harrays
  · show (Draft.memory _).vars[i] = _
    rw [Draft.memory_vars _ hi, arrays_ofDeclarations, mapInits_ofDeclarations]
    rfl

/-! ## A module with a little of everything -/

namespace Mixed

/-- Scripts out of order, flags given twice, values beyond their array, variables out of range. -/
def declarations : List Declaration :=
  [.script 5 1 2 (CodeItem.push 3 ++ [.op .terminate]), .flags 5 ⟨0xfffe⟩,
    .script (-7) 255 0 [.op .terminate], .locals (-7) 30, .flags 5 ⟨0xfff9⟩,
    .function 1 2 true, .imported 0 false, .define 0 [.op .returnVoid],
    .array 3 [10, 20, 30] 2, .array 200 [1] 3, .array 3 [] 1, .mapInit 127 [9, 8],
    .mapInit 4 [6, 7], .mapInit 5 [-1]]

theorem load_assemble_describes_mixed :
    (∀ decl ∈ declarations, decl.HasRoom (.legacyChunked .compact)) ∧
    ∃ p, Loading.Gives (Image.load
        (assemble (.legacyChunked .compact) .windows1252 declarations).1 .windows1252) p ∧
      Describes (.legacyChunked .compact) declarations p ∧
      p.scripts = [⟨-7, 255, 0, 14, .none, some 30⟩, ⟨5, 1, 2, 8, ⟨1⟩, none⟩] ∧
      p.functions.toList = [⟨1, 2, true, 0, 15⟩, ⟨0, 0, false, 1, 0⟩] ∧
      p.memory.arrays.toList = [#[10, 20], #[1, 0, 0], #[0]] ∧
      p.memory.vars[3] = 2 ∧ p.memory.vars[4] = 6 ∧ p.memory.vars[5] = -1 ∧
      p.memory.vars[127] = 9 := by
  have hroom : ∀ decl ∈ declarations, decl.HasRoom (.legacyChunked .compact) := by
    simp [declarations, Declaration.HasRoom, Image.IsShort, Image.maxArrayLength]
  obtain ⟨p, hload, hp⟩ := load_assemble_describes (.legacyChunked .compact) .windows1252
    .windows1252 declarations (by decide) (by decide) hroom (by decide +kernel)
  have hperm : p.scripts.Perm [⟨-7, 255, 0, 14, .none, some 30⟩, ⟨5, 1, 2, 8, ⟨1⟩, none⟩] :=
    hp.scripts.trans (.swap ..)
  have hscripts := hperm.eq_of_pairwise
    (fun s t _ _ hst hts => absurd (Int32.lt_trans hst hts) Int32.lt_irrefl)
    hp.ascending (by decide)
  exact ⟨hroom, p, hload, hp, hscripts, hp.functions, hp.arrays, hp.vars 3 _, hp.vars 4 _,
    hp.vars 5 _, hp.vars 127 _⟩

end Mixed

end Assembly
end LevelScript
