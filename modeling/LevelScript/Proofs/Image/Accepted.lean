import LevelScript.Proofs.Image.Contents
import LevelScript.Proofs.Image.Duplicates

/-!
# Images that are accepted

An image that was accepted once is accepted again, with the same program, whatever was reported in
between. The program has what the image holds, and nothing in it leads out of the image.

* `Loading.Ensures`: a step that succeeds gives the same whatever was reported, and what it gives
  satisfies a postcondition.
* `Image.Tells`: the program that an image gives.
* `Image.ensures_tells`: loading gives it.
* `accepted_image_sound`: loading refuses an image or gives a sound program.
-/

namespace LevelScript

namespace Loading

variable {α β : Type}

/-- If the step succeeds at all, it gives one value whatever was reported before, and the value
satisfies `Q`. -/
def Ensures (x : Loading α) (Q : α → Prop) : Prop :=
  ∀ j a j', x j = .ok a j' → Gives x a ∧ Q a

theorem ensures_pure {a : α} {Q : α → Prop} (h : Q a) : Ensures (pure a) Q := by
  intro j b j' hb
  cases hb
  exact ⟨gives_pure a, h⟩

theorem ensures_throw (e : LoadError) (Q : α → Prop) : Ensures (throw e) Q := by
  intro j b j' hb
  cases hb

theorem ensures_throw_bind (e : LoadError) (f : α → Loading β) (Q : β → Prop) :
    Ensures (throw e >>= f) Q := by
  intro j b j' hb
  cases hb

theorem ensures_bind {x : Loading α} {f : α → Loading β} {Q : α → Prop} {R : β → Prop}
    (hx : Ensures x Q) (hf : ∀ a, Q a → Ensures (f a) R) : Ensures (x >>= f) R := by
  intro j b j' hb
  simp only [bind, EStateM.bind] at hb
  cases hrun : x j with
  | error e j₁ => rw [hrun] at hb; cases hb
  | ok a j₁ =>
    rw [hrun] at hb
    obtain ⟨hgives, ha⟩ := hx j a j₁ hrun
    obtain ⟨hgives', hb'⟩ := hf a ha j₁ b j' hb
    exact ⟨gives_bind hgives hgives', hb'⟩

theorem Gives.ensures {x : Loading α} {a : α} {Q : α → Prop} (h : Gives x a) (ha : Q a) :
    Ensures x Q := by
  intro j b j' hb
  obtain ⟨j'', hrun⟩ := h j
  rw [hrun] at hb
  cases hb
  exact ⟨h, ha⟩

theorem Ensures.imp {x : Loading α} {Q R : α → Prop} (h : Ensures x Q) (himp : ∀ a, Q a → R a) :
    Ensures x R := by
  intro j a j' hrun
  obtain ⟨hgives, ha⟩ := h j a j' hrun
  exact ⟨hgives, himp a ha⟩

theorem ensures_ofExcept (x : Except LoadError α) : Ensures (ofExcept x) fun a => x = .ok a := by
  cases x with
  | error e => exact ensures_throw e _
  | ok a => exact ensures_pure rfl

/-- A loop keeps what its steps keep. -/
theorem ensures_foldlM {P : β → Prop} {f : β → α → Loading β} (h : ∀ b x, P b → Ensures (f b x) P)
    (xs : List α) {b : β} (hb : P b) : Ensures (xs.foldlM f b) P := by
  induction xs generalizing b with
  | nil => exact ensures_pure hb
  | cons x rest ih =>
    rw [List.foldlM_cons]
    exact ensures_bind (h b x hb) fun b' hb' => ih hb'

/-- A loop of steps is a loop over what was read from its inputs. -/
theorem ensures_foldlM_read {γ : Type} {R : α → γ → Prop} {g : β → γ → β} {f : β → α → Loading β}
    (h : ∀ b x, Ensures (f b x) fun b' => ∃ y, R x y ∧ b' = g b y) (xs : List α) (b : β) :
    Ensures (xs.foldlM f b) fun b' => ∃ ys, List.Forall₂ R xs ys ∧ b' = ys.foldl g b := by
  induction xs generalizing b with
  | nil => exact ensures_pure ⟨[], .nil, rfl⟩
  | cons x rest ih =>
    rw [List.foldlM_cons]
    refine ensures_bind (h b x) ?_
    rintro _ ⟨y, hy, rfl⟩
    refine (ih (g b y)).imp ?_
    rintro _ ⟨ys, hys, rfl⟩
    exact ⟨y :: ys, .cons hy hys, rfl⟩

end Loading

/-- The scripts that contents tell of, with the values that go to them, by number. -/
def Contents.ordered (c : Contents) : List Script :=
  Image.inOrder (Image.patched (fun v s => { s with localCount := some v })
    (Image.patched (fun v s => { s with flags := ScriptFlags.truncate v }) c.scripts c.flags)
    c.localCounts)

namespace Image

open Loading

/-- No array is longer than an array may be. -/
def Short (m : MapMemory) : Prop := ∀ a ∈ m.arrays, a.size ≤ maxArrayLength

/-- The program has what an image holds, and nothing in it leads out of the image. -/
structure Tells (image : Image) (c : Contents) (p : Program) : Prop where
  image_eq : p.image = image
  scripts_eq : p.scripts = c.ordered
  strings_eq : p.strings = .ofTables c.tables
  scripts_inside : ∀ s ∈ p.scripts, s.entry.toNat < image.size
  functions_inside : ∀ f ∈ p.functions, f.isImported = false → f.entry.toNat < image.size
  short : Short p.memory

/-- A program that keeps its image and whose scripts start in it. -/
def Keeps (image : Image) (p : Program) : Prop :=
  p.image = image ∧ ∀ script ∈ p.scripts, script.entry.toNat < image.size

/-! ## Scripts -/

theorem ensures_applyPairs (kind : ChunkKind) (set : UInt16 → Script → Script)
    (scripts : List Script) (pairs : List (Int32 × UInt16)) :
    Ensures (pairs.foldlM (applyPair kind set) scripts) (· = patched set scripts pairs) := by
  have hsame : List.Forall₂ (· = ·) pairs pairs := List.forall₂_same.mpr fun _ _ => rfl
  refine (gives_foldlM hsame (fun scripts pair _ heq => ?_) scripts).ensures rfl
  exact heq ▸ gives_applyPair kind set scripts pair

theorem ensures_finishScripts (size : Nat) (scripts : List Script) :
    Ensures (finishScripts size scripts) fun kept =>
      kept = inOrder scripts ∧ ∀ script ∈ kept, script.entry.toNat < size := by
  cases hfind : scripts.find? fun s => size ≤ s.entry.toNat with
  | some s =>
    unfold finishScripts
    rw [hfind]
    exact ensures_throw_bind _ _ _
  | none =>
    have hentries : ∀ script ∈ scripts, script.entry.toNat < size := by
      intro script hscript
      simpa using List.find?_eq_none.mp hfind script hscript
    refine (gives_finishScripts hentries).ensures ⟨rfl, fun script hmem => ?_⟩
    exact hentries script (mem_of_mem_inOrder hmem)

/-! ## Memory -/

theorem ensures_declareArray (chunk : Chunk) (m : MapMemory) (record : UInt32 × UInt32)
    (hm : Short m) : Ensures (declareArray chunk m record) Short := by
  by_cases h : record.2.toNat ≤ maxArrayLength
  · refine (gives_declareArray chunk m h).ensures fun a ha => ?_
    rcases Array.mem_push.mp ha with hmem | rfl
    · exact hm a hmem
    · rwa [Array.size_replicate]
  · unfold declareArray
    dsimp only
    rw [if_pos (Nat.not_le.mp h)]
    exact ensures_throw_bind _ _ _

theorem ensures_initArray (m : MapMemory) (chunk : Chunk) (hm : Short m) :
    Ensures (initArray m chunk) Short := by
  cases h : Chunk.words chunk.payload with
  | nil =>
    unfold initArray
    rw [h]
    exact ensures_throw _ _
  | cons array values =>
    refine (gives_initArray m h).ensures fun a ha => ?_
    obtain ⟨i, hi, rfl⟩ := Array.mem_iff_getElem.mp ha
    unfold filled at hi ⊢
    rw [Array.getElem_modify]
    split
    · rw [size_writeFrom]
      exact hm _ (Array.getElem_mem _)
    · exact hm _ (Array.getElem_mem _)

theorem arrays_assigned (m : MapMemory) (first : UInt32) (values : List UInt32) :
    (assigned m first values).arrays = m.arrays := by
  unfold assigned
  generalize first.toNat = i
  induction values generalizing m i with
  | nil => rfl
  | cons v rest ih => exact ih (m.setVar i v.toInt32) (i + 1)

theorem ensures_initVars (m : MapMemory) (chunk : Chunk) (hm : Short m) :
    Ensures (initVars m chunk) Short := by
  cases h : Chunk.words chunk.payload with
  | nil =>
    unfold initVars
    rw [h]
    exact ensures_throw _ _
  | cons first values =>
    refine (gives_initVars m h).ensures ?_
    unfold Short
    rw [arrays_assigned]
    exact hm

/-! ## Chunked images -/

theorem ensures_tables (image : Image) (encoding : Text.Encoding) (chunks : List Chunk) :
    Ensures (chunks.foldlM (fun strings chunk => do
        insertTable strings (← Loading.ofExcept (readTable image encoding chunk))) Strings.empty)
      fun strings => ∃ tables, List.Forall₂ (Chunk.HoldsTable image encoding) chunks tables ∧
        strings = .ofTables tables := by
  refine ensures_foldlM_read (fun strings chunk => ?_) chunks Strings.empty
  refine ensures_bind (ensures_ofExcept _) fun t ht => ?_
  exact (gives_insertTable strings t).ensures ⟨t, Chunk.holdsTable_iff.mpr ht, rfl⟩

theorem ensures_loadChunks (image : Image) (encoding : Text.Encoding) {layout : Layout}
    {form : ScriptForm} (hform : layout.form? = some form) (chunks : List Chunk) :
    Ensures (loadChunks image encoding layout chunks) fun p =>
      p.layout = layout ∧ ∃ c : Contents, c.InChunks image encoding form chunks ∧
        image.Tells c p := by
  unfold loadChunks
  dsimp only
  refine ensures_bind (ensures_applyPairs _ _ _ _) ?_
  rintro _ rfl
  refine ensures_bind (ensures_applyPairs _ _ _ _) ?_
  rintro _ rfl
  refine ensures_bind (ensures_foldlM (fun m chunk hm =>
    ensures_foldlM (ensures_declareArray chunk) _ hm) _ ?_) fun m hm => ?_
  · intro a ha
    simp [MapMemory.empty] at ha
  refine ensures_bind (ensures_foldlM ensures_initArray _ hm) fun m hm => ?_
  refine ensures_bind (ensures_foldlM ensures_initVars _ hm) fun m hm => ?_
  refine ensures_bind (ensures_tables image encoding _) ?_
  rintro _ ⟨tables, htables, rfl⟩
  refine ensures_bind (ensures_finishScripts _ _) ?_
  rintro scripts ⟨hscripts, hinside⟩
  split
  · exact ensures_throw _ _
  · rename_i hfunctions
    refine ensures_pure ⟨rfl, ⟨_, _, _, tables⟩, ⟨form.reads.hold_iff.mpr ?_,
      reads_scriptPairs.hold_iff.mpr rfl, reads_scriptPairs.hold_iff.mpr rfl, htables⟩,
      ⟨rfl, hscripts, rfl, hinside, ?_, hm⟩⟩
    · cases layout <;> cases hform <;> rfl
    · intro f hf himported
      simpa [himported] using List.find?_eq_none.mp hfunctions f (by simpa using hf)

theorem ensures_loadChunked {image : Image} (encoding : Text.Encoding) {layout : Layout}
    {form : ScriptForm} (hform : layout.form? = some form) {offset : UInt32}
    (hleads : image.Leads layout offset) :
    Ensures (loadChunked image encoding layout offset.toNat) fun p =>
      ∃ c, image.Holds encoding p.layout c ∧ image.Tells c p := by
  unfold loadChunked
  dsimp only
  split
  · exact ensures_throw_bind _ _ _
  · rename_i hinside
    refine ensures_bind (ensures_ofExcept _) fun chunks hchunks => ?_
    refine (ensures_loadChunks image encoding hform chunks).imp ?_
    rintro p ⟨rfl, c, hc, htells⟩
    exact ⟨c, .chunked hleads hform (Nat.not_lt.mp hinside) (Chunk.row_iff.mpr hchunks) hc, htells⟩

/-! ## Legacy images -/

theorem ensures_loadLegacy {image : Image} (encoding : Text.Encoding) {directory : UInt32}
    (hleads : image.Leads .legacy directory) :
    Ensures (loadLegacy image encoding directory.toNat) fun p =>
      ∃ c, image.Holds encoding p.layout c ∧ image.Tells c p := by
  unfold loadLegacy
  dsimp only
  split
  · exact ensures_throw_bind _ _ _
  · refine ensures_bind (ensures_ofExcept _) fun count hcount => ?_
    refine ensures_bind (ensures_ofExcept _) fun scripts hscripts => ?_
    refine ensures_bind (ensures_ofExcept _) fun textCount htextCount => ?_
    refine ensures_bind (ensures_ofExcept _) fun offsets hoffsets => ?_
    refine ensures_bind (ensures_ofExcept _) fun table htable => ?_
    refine ensures_bind (ensures_finishScripts _ _) ?_
    rintro kept ⟨hkept, hinside⟩
    rw [directoryWord_eq_ok_iff] at hcount htextCount
    obtain ⟨hlanguage, htexts⟩ := readTexts_eq_ok_iff.mp htable
    have hdirectory : image.HoldsDirectory directory.toNat scripts offsets :=
      holdsDirectory_iff.mpr ⟨count, textCount, hcount, hscripts, htextCount, hoffsets⟩
    refine ensures_pure ⟨_, .legacy hleads hdirectory htexts, ⟨rfl, hkept, ?_, hinside, ?_, ?_⟩⟩
    · rw [← hlanguage]
      rfl
    · intro f hf
      simp at hf
    · intro a ha
      simp [MapMemory.empty] at ha

/-! ## The header -/

theorem widthTag?_eq_some_iff {bytes : List UInt8} {width : CodeWidth} :
    widthTag? bytes = some width ↔ bytes = width.tag := by
  constructor
  · intro h
    unfold widthTag? at h
    split at h
    · cases h
      rfl
    · cases h
      rfl
    · cases h
  · rintro rfl
    cases width <;> rfl

theorem chunkedTag?_eq_some_iff {image : Image} {directory : UInt32} {width : CodeWidth} :
    chunkedTag? image directory.toNat = some width ↔ image.Tagged directory width := by
  unfold chunkedTag? Tagged
  constructor
  · intro h
    split at h
    · rename_i hinside
      exact ⟨hinside.1, stands_of_extract (widthTag?_eq_some_iff.mp h)⟩
    · cases h
  · rintro ⟨hle, hstands⟩
    have hlength := length_tag width
    have hsize := hstands.le (List.ne_nil_of_length_pos (by omega))
    rw [if_pos ⟨hle, by omega⟩, widthTag?_eq_some_iff]
    exact extract_of_stands hstands (by omega)

theorem ensures_loadTables (image : Image) (encoding : Text.Encoding) :
    Ensures (loadTables image encoding) fun p =>
      ∃ c, image.Holds encoding p.layout c ∧ image.Tells c p := by
  unfold loadTables
  split
  · rename_i m₀ m₁ m₂ tag w₀ w₁ w₂ w₃ rest himage
    dsimp only
    split
    · exact ensures_throw _ _
    · rename_i hmagic
      have hheader : image.Stands 0 ([0x41, 0x43, 0x53, tag] ++
          Bytes.le32 (Bytes.ofLe32 w₀ w₁ w₂ w₃)) := by
        have hacs : [m₀, m₁, m₂] = [0x41, 0x43, 0x53] := by simpa using hmagic
        cases hacs
        rw [Bytes.le32_ofLe32]
        exact ⟨rest, himage.symm⟩
      split
      · rename_i htag
        rw [beq_iff_eq.mp htag] at hheader
        exact ensures_loadChunked encoding rfl (.enhanced hheader)
      · split
        · rename_i htag
          rw [beq_iff_eq.mp htag] at hheader
          exact ensures_loadChunked encoding rfl (.enhanced hheader)
        · split
          · rename_i htag
            rw [beq_iff_eq.mp htag] at hheader
            split
            · rename_i width hwidth
              refine ensures_bind (ensures_ofExcept _) fun offset hoffset => ?_
              exact ensures_loadChunked encoding rfl (.legacyChunked hheader
                (chunkedTag?_eq_some_iff.mp hwidth) (directoryWord_eq_ok_iff.mp hoffset))
            · rename_i hnone
              refine ensures_loadLegacy encoding (.legacy hheader fun width htagged => ?_)
              rw [chunkedTag?_eq_some_iff.mpr htagged] at hnone
              cases hnone
          · exact ensures_throw _ _
  · exact ensures_throw _ _

/-- An accepted image is accepted again with the same program, which has what the image holds. -/
theorem ensures_tells (image : Image) (encoding : Text.Encoding) :
    Ensures (image.load encoding) fun p =>
      ∃ c, image.Holds encoding p.layout c ∧ image.Tells c p := by
  refine ensures_bind (ensures_loadTables image encoding) fun p hp => ?_
  exact ensures_bind (Q := fun _ => True) ((gives_note _).ensures trivial)
    fun _ _ => ensures_pure hp

/-- An accepted image is accepted again with the same program, which keeps the image and whose
scripts start in it. -/
theorem ensures_load (image : Image) (encoding : Text.Encoding) :
    Ensures (image.load encoding) image.Keeps := by
  refine (ensures_tells image encoding).imp ?_
  rintro p ⟨c, -, htells⟩
  exact ⟨htells.image_eq, htells.scripts_inside⟩

/-- An image that holds something has a header word. -/
theorem Holds.exists_word {image : Image} {encoding : Text.Encoding} {layout : Layout}
    {c : Contents} (h : image.Holds encoding layout c) :
    ∃ word, image.Stands 4 (Bytes.le32 word) := by
  have hleads {layout : Layout} {offset : UInt32} (h : image.Leads layout offset) :
      ∃ word, image.Stands 4 (Bytes.le32 word) := by
    cases h with
    | @enhanced width _ header =>
      have hback := (stands_append.mp header).2
      rw [length_tag, Nat.zero_add] at hback
      exact ⟨_, hback⟩
    | legacyChunked header | legacy header => exact ⟨_, (stands_append.mp header).2⟩
  cases h with
  | chunked leads | legacy leads => exact hleads leads

/-- Whether loading accepts the image. -/
def isAccepted (image : Image) (encoding : Text.Encoding) : Bool :=
  match image.load encoding default with
  | .ok _ _ => true
  | .error _ _ => false

theorem exists_of_isAccepted {image : Image} {encoding : Text.Encoding}
    (h : image.isAccepted encoding = true) : ∃ p j, image.load encoding default = .ok p j := by
  unfold isAccepted at h
  split at h
  · exact ⟨_, _, ‹_›⟩
  · cases h

/-- The scripts of an accepted image have ascending numbers. -/
theorem ascending_of_load {image : Image} {encoding : Text.Encoding} {j j' : Journal}
    {p : Program} (h : image.load encoding j = .ok p j') :
    p.scripts.Pairwise (·.number < ·.number) := by
  obtain ⟨-, c, -, htells⟩ := ensures_tells image encoding j p j' h
  rw [htells.scripts_eq]
  exact ascending_inOrder _

end Image

/-! ## Accepted images -/

/-- The first script of a number gets the last values for it. -/
theorem Contents.find?_ordered (c : Contents)
    (hbare : ∀ s ∈ c.scripts, s.flags = .none ∧ s.localCount = none) (n : Int32) :
    c.ordered.find? (·.number == n) =
      (c.scripts.find? (·.number == n)).map fun s =>
        { s with
          flags := ((lastFor n c.flags).map ScriptFlags.truncate).getD .none
          localCount := lastFor n c.localCounts } := by
  rw [Contents.ordered, Image.find?_inOrder, Image.find?_patched, Image.find?_patched,
    Option.map_map]
  · cases hfind : c.scripts.find? (·.number == n) with
    | none => rfl
    | some s =>
      obtain ⟨hflags, hcount⟩ := hbare s (List.mem_of_find?_eq_some hfind)
      obtain ⟨number, typeTag, argCount, entry, flags, localCount⟩ := s
      subst hflags hcount
      cases lastFor n c.flags <;> cases lastFor n c.localCounts <;> rfl
  -- a value replaces an earlier one and leaves the number
  all_goals
    intros
    rfl

/-- Loading refuses an image or gives a sound program. The image holds one thing. The scripts of the
program have ascending numbers, so that a search by halving finds them, and a number is found if
the image has a script of this number: the first one, with the flags and the number of variables
that the image gives last for it. No script, and no function that is not imported, starts outside
the image, and arrays are not too long. The program has the first table of each language. -/
theorem accepted_image_sound (image : Image) (encoding : Text.Encoding) (j : Journal) :
    (∃ e j', image.load encoding j = .error e j') ∨
    ∃ (p : Program) (j' : Journal) (c : Contents), image.load encoding j = .ok p j' ∧
      p.image = image ∧ image.Holds encoding p.layout c ∧
      (∀ layout c', image.Holds encoding layout c' → layout = p.layout ∧ c' = c) ∧
      p.scripts.Pairwise (·.number < ·.number) ∧
      (∀ n, bisect n p.scripts = p.findScript n) ∧
      (∀ n, (p.findScript n).isSome ↔ ∃ s ∈ c.scripts, s.number = n) ∧
      (∀ n, p.findScript n = (c.scripts.find? (·.number == n)).map fun s =>
        { s with
          flags := ((lastFor n c.flags).map ScriptFlags.truncate).getD .none
          localCount := lastFor n c.localCounts }) ∧
      (∀ s ∈ p.scripts, s.entry.toNat < image.size) ∧
      (∀ f ∈ p.functions, f.isImported = false → f.entry.toNat < image.size) ∧
      (∀ a ∈ p.memory.arrays, a.size ≤ 2 ^ 20) ∧
      p.strings.languages.Nodup ∧
      ∀ t, t ∈ p.strings.tables ↔ c.tables.find? (·.language == t.language) = some t := by
  cases hload : image.load encoding j with
  | error e j' => exact .inl ⟨e, j', rfl⟩
  | ok p j' =>
    obtain ⟨-, c, hholds, htells⟩ := Image.ensures_tells image encoding j p j' hload
    have hfind (n : Int32) := htells.scripts_eq ▸ c.find?_ordered hholds.bare n
    have hascending : p.scripts.Pairwise (·.number < ·.number) :=
      htells.scripts_eq ▸ Image.ascending_inOrder _
    have hsome (n : Int32) : (p.findScript n).isSome ↔ ∃ s ∈ c.scripts, s.number = n := by
      rw [Program.findScript, hfind, Option.isSome_map, List.find?_isSome]
      simp only [beq_iff_eq]
    refine .inr ⟨p, j', c, rfl, htells.image_eq, hholds, fun layout c' h => h.unique hholds,
      hascending, bisect_eq_find? hascending, hsome, hfind, htells.scripts_inside,
      htells.functions_inside, htells.short, ?_, ?_⟩
    · rw [htells.strings_eq]
      exact Strings.nodup_ofTables c.tables
    · intro t
      rw [htells.strings_eq]
      exact Strings.mem_ofTables

end LevelScript
