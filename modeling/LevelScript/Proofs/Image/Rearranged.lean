import LevelScript.Proofs.Image.Accepted

/-!
# Chunks in another order

Chunks are read kind by kind. So an image whose chunks are in another order, with other chunks
between them that are of no known kind, gives the same program, as long as the chunks of each kind
stay in their order. Texts are looked up in the image and not in their chunk; they have to end in
it.

* `Loading.Follows`: a step that succeeds if another one does.
* `Image.follows_loadChunks`: chunks with the same payloads for each kind are read alike.
* `Image.load_rearranged`: an image is loaded like the one it was rearranged from.
-/

namespace LevelScript

/-! ## Steps that succeed together -/

namespace Loading

variable {α β : Type}

/-- If `x` succeeds, then `y` gives what `f` makes of its value, whatever was reported before. -/
def Follows (f : α → β) (x : Loading α) (y : Loading β) : Prop :=
  ∀ j a j', x j = .ok a j' → Gives y (f a)

theorem follows_throw (e : LoadError) (f : α → β) (y : Loading β) : Follows f (throw e) y := by
  intro j a j' hrun
  cases hrun

theorem follows_throw_bind {γ : Type} (e : LoadError) (k : γ → Loading α) (f : α → β)
    (y : Loading β) : Follows f (throw e >>= k) y := by
  intro j a j' hrun
  cases hrun

theorem Gives.follows {f : α → β} {x : Loading α} {y : Loading β} {a : α} (hx : Gives x a)
    (hy : Gives y (f a)) : Follows f x y := by
  intro j b j' hrun
  obtain ⟨j₁, hx⟩ := hx j
  rw [hx] at hrun
  cases hrun
  exact hy

theorem Ensures.follows {x : Loading α} {Q : α → Prop} (h : Ensures x Q) : Follows id x x :=
  fun j a j' hrun => (h j a j' hrun).1

theorem Follows.bind {γ δ : Type} {f : α → β} {g : γ → δ} {x : Loading α} {y : Loading β}
    {k : α → Loading γ} {k' : β → Loading δ} (hx : Follows f x y)
    (hk : ∀ a, Follows g (k a) (k' (f a))) : Follows g (x >>= k) (y >>= k') := by
  intro j b j' hrun
  simp only [Bind.bind, EStateM.bind] at hrun
  cases hx' : x j with
  | error e j₁ => rw [hx'] at hrun; cases hrun
  | ok a j₁ =>
    rw [hx'] at hrun
    exact gives_bind (hx j a j₁ hx') (hk a j₁ b j' hrun)

theorem follows_bind {γ : Type} {f : β → γ} {x y : Loading α} {k : α → Loading β}
    {k' : α → Loading γ} (hx : Follows id x y) (hk : ∀ a, Follows f (k a) (k' a)) :
    Follows f (x >>= k) (y >>= k') :=
  hx.bind hk

/-- Loops follow each other if their steps do, over inputs that are related one by one. -/
theorem follows_foldlM {γ : Type} {R : α → γ → Prop} {k : β → α → Loading β}
    {k' : β → γ → Loading β} {xs : List α} {ys : List γ} (hxs : List.Forall₂ R xs ys)
    (h : ∀ b x y, R x y → Follows id (k b x) (k' b y)) (b : β) :
    Follows id (xs.foldlM k b) (ys.foldlM k' b) := by
  induction hxs generalizing b with
  | nil => exact (gives_pure b).follows (gives_pure b)
  | cons hxy _ ih =>
    rw [List.foldlM_cons, List.foldlM_cons]
    exact follows_bind (h b _ _ hxy) ih

end Loading

/-! ## Payloads and texts -/

namespace Chunk

/-- Lists of chunks with the same payloads are related one by one. -/
theorem forall₂_of_payloads {xs ys : List Chunk} (h : xs.map payload = ys.map payload) :
    List.Forall₂ (fun c c' => c ∈ xs ∧ c' ∈ ys ∧ c.payload = c'.payload) xs ys := by
  have hall : List.Forall₂ (fun c c' : Chunk => c.payload = c'.payload) xs ys := by
    have hmap : List.Forall₂ (· = ·) (xs.map payload) (ys.map payload) := by
      rw [List.forall₂_eq_eq_eq]
      exact h
    rwa [List.forall₂_map_left_iff, List.forall₂_map_right_iff] at hmap
  rw [List.forall₂_iff_zip] at hall ⊢
  refine ⟨hall.1, fun {c c'} hmem => ?_⟩
  obtain ⟨hc, hc'⟩ := List.of_mem_zip hmem
  exact ⟨hc, hc', hall.2 hmem⟩

/-- Where the texts of a table start, counted from the payload on. -/
def textOffsets (c : Chunk) : List UInt32 :=
  match words c.payload with
  | _ :: count :: _ :: offsets => offsets.take count.toNat
  | _ => []

/-- Every text of the table ends in the chunk, with a zero byte. -/
def TextsEnd (c : Chunk) : Prop := ∀ o ∈ c.textOffsets, 0 ∈ c.payload.drop o.toNat

instance (c : Chunk) : Decidable c.TextsEnd :=
  List.decidableBAll (fun o : UInt32 => 0 ∈ c.payload.drop o.toNat) c.textOffsets

end Chunk

namespace Image

open Loading

variable {image image' : Image} {encoding : Text.Encoding}

/-- A text that ends in a payload is the same wherever the payload stands. -/
theorem literalAt_of_ends {place start : Nat} {payload : List UInt8}
    (hstands : image.Stands place payload) (hzero : 0 ∈ payload.drop start) :
    place + start < image.size ∧
      image.literalAt (place + start) = (payload.drop start).takeWhile (· != 0) := by
  have hlt : start < payload.length := by
    rw [← Nat.not_le, ← List.drop_eq_nil_iff]
    exact List.ne_nil_of_mem hzero
  have hsplit : image.Stands (place + start) (payload.drop start) := by
    rw [← List.take_append_drop start payload, stands_append,
      List.length_take_of_le (Nat.le_of_lt hlt)] at hstands
    exact hstands.2
  have hsize := hstands.le (List.ne_nil_of_length_pos (by omega))
  exact ⟨by omega, literalAt_of_stands hsplit hzero⟩

/-- A table whose texts end in its chunk is the same wherever the payload stands. -/
theorem readTable_of_ends {c c' : Chunk} {t : StringTable} (hpayload : c.payload = c'.payload)
    (hends : c.TextsEnd) (hstands : image.Stands c.offset c.payload)
    (hstands' : image'.Stands c'.offset c'.payload)
    (h : readTable image encoding c = .ok t) : readTable image' encoding c' = .ok t := by
  rw [← Chunk.holdsTable_iff] at h ⊢
  obtain ⟨count, unused, offsets, rest, hcount, hwritten, -, htexts⟩ := h
  have hoffsets : c.textOffsets = offsets := by
    rw [Chunk.textOffsets, hwritten, words_le32, words_le32, words_le32, words_flatMap]
    dsimp only
    rw [← hcount, List.take_left]
  have hends' : ∀ o ∈ offsets, 0 ∈ c.payload.drop o.toNat := hoffsets ▸ hends
  refine ⟨count, unused, offsets, rest, hcount, hpayload ▸ hwritten, ?_, ?_⟩
  · intro o ho
    exact (literalAt_of_ends hstands' (hpayload ▸ hends' o ho)).1
  · rw [htexts]
    refine List.map_congr_left fun o ho => ?_
    rw [(literalAt_of_ends hstands (hends' o ho)).2,
      (literalAt_of_ends hstands' (hpayload ▸ hends' o ho)).2, hpayload]

/-! ## The steps of loading -/

theorem follows_declareArray (c c' : Chunk) (m : MapMemory) (record : UInt32 × UInt32) :
    Follows id (declareArray c m record) (declareArray c' m record) := by
  by_cases h : record.2.toNat ≤ maxArrayLength
  · exact (gives_declareArray c m h).follows (gives_declareArray c' m h)
  · unfold declareArray
    dsimp only
    rw [if_pos (Nat.not_le.mp h)]
    exact follows_throw_bind _ _ _ _

theorem follows_declareArrays {c c' : Chunk} (h : c.payload = c'.payload) (m : MapMemory) :
    Follows id ((wordPairs (Chunk.words c.payload)).foldlM (declareArray c) m)
      ((wordPairs (Chunk.words c'.payload)).foldlM (declareArray c') m) := by
  rw [h]
  refine follows_foldlM (List.forall₂_same.mpr fun _ _ => rfl) (fun m record record' heq => ?_) m
  exact heq ▸ follows_declareArray c c' m record

theorem follows_initArray {c c' : Chunk} (h : c.payload = c'.payload) (m : MapMemory) :
    Follows id (initArray m c) (initArray m c') := by
  cases hwords : Chunk.words c.payload with
  | nil =>
    unfold initArray
    rw [hwords]
    exact follows_throw _ _ _
  | cons array values =>
    exact (gives_initArray m hwords).follows (gives_initArray m (h ▸ hwords))

theorem follows_initVars {c c' : Chunk} (h : c.payload = c'.payload) (m : MapMemory) :
    Follows id (initVars m c) (initVars m c') := by
  cases hwords : Chunk.words c.payload with
  | nil =>
    unfold initVars
    rw [hwords]
    exact follows_throw _ _ _
  | cons first values =>
    exact (gives_initVars m hwords).follows (gives_initVars m (h ▸ hwords))

theorem follows_insertTable {c c' : Chunk}
    (h : ∀ t, readTable image encoding c = .ok t → readTable image' encoding c' = .ok t)
    (strings : Strings) :
    Follows id
      (do insertTable strings (← Loading.ofExcept (readTable image encoding c)))
      (do insertTable strings (← Loading.ofExcept (readTable image' encoding c'))) := by
  cases hread : readTable image encoding c with
  | error e => exact follows_throw_bind _ _ _ _
  | ok t =>
    rw [h t hread]
    exact (gives_insertTable strings t).follows (gives_insertTable strings t)

theorem follows_finishScripts {size size' : Nat} (hsize : size ≤ size') (scripts : List Script) :
    Follows id (finishScripts size scripts) (finishScripts size' scripts) := by
  cases hfind : scripts.find? fun s => size ≤ s.entry.toNat with
  | some s =>
    unfold finishScripts
    rw [hfind]
    exact follows_throw_bind _ _ _ _
  | none =>
    have hentries : ∀ s ∈ scripts, s.entry.toNat < size := by
      intro s hs
      simpa using List.find?_eq_none.mp hfind s hs
    refine (gives_finishScripts hentries).follows (gives_finishScripts fun s hs => ?_)
    exact Nat.lt_of_lt_of_le (hentries s hs) hsize

/-- Chunks are read alike if those of each kind have the same payloads. -/
theorem follows_loadChunks {layout : Layout} {chunks chunks' : List Chunk}
    (hpayloads : ∀ kind, (Chunk.ofKind kind chunks).map Chunk.payload =
      (Chunk.ofKind kind chunks').map Chunk.payload)
    (hends : ∀ c ∈ Chunk.ofKind .strl chunks, c.TextsEnd)
    (hstands : ∀ c ∈ chunks, image.Stands c.offset c.payload)
    (hstands' : ∀ c ∈ chunks', image'.Stands c.offset c.payload)
    (hsize : image.size ≤ image'.size) :
    Follows (fun p => { p with image := image' }) (loadChunks image encoding layout chunks)
      (loadChunks image' encoding layout chunks') := by
  have hkind (kind : ChunkKind) := Chunk.forall₂_of_payloads (hpayloads kind)
  have hofKind {kind : ChunkKind} {cs : List Chunk} {c : Chunk}
      (hc : c ∈ Chunk.ofKind kind cs) : c ∈ cs := List.mem_of_mem_filter hc
  unfold loadChunks
  simp only [hpayloads]
  refine follows_bind (ensures_applyPairs _ _ _ _).follows fun scripts => ?_
  refine follows_bind (ensures_applyPairs _ _ _ _).follows fun scripts => ?_
  refine follows_bind (follows_foldlM (hkind .aray) (fun m c c' h => ?_) _) fun memory => ?_
  · exact follows_declareArrays h.2.2 m
  refine follows_bind (follows_foldlM (hkind .aini) (fun m c c' h => ?_) _) fun memory => ?_
  · exact follows_initArray h.2.2 m
  refine follows_bind (follows_foldlM (hkind .mini) (fun m c c' h => ?_) _) fun memory => ?_
  · exact follows_initVars h.2.2 m
  refine follows_bind (follows_foldlM (hkind .strl) (fun strings c c' h => ?_) _) fun strings => ?_
  · obtain ⟨hc, hc', hpayload⟩ := h
    refine follows_insertTable (fun t ht => ?_) strings
    exact readTable_of_ends hpayload (hends c hc) (hstands c (hofKind hc))
      (hstands' c' (hofKind hc')) ht
  refine follows_bind (follows_finishScripts hsize _) fun scripts => ?_
  generalize ((Chunk.ofKind .func chunks').map Chunk.payload).flatMap functionRecords = functions
  cases hfind : functions.find? fun f => !f.isImported && image.size ≤ f.entry.toNat with
  | some f => exact follows_throw _ _ _
  | none =>
    have hfind' : functions.find? (fun f => !f.isImported && image'.size ≤ f.entry.toNat) =
        none := by
      rw [List.find?_eq_none] at hfind ⊢
      intro f hf
      have hout := hfind f hf
      simp only [Bool.and_eq_true, decide_eq_true_eq, not_and, Nat.not_le] at hout ⊢
      exact fun himported => Nat.lt_of_lt_of_le (hout himported) hsize
    rw [hfind']
    exact (gives_pure _).follows (gives_pure _)

/-! ## Images -/

/-- The header of a chunked image leads to its chunks. -/
theorem loadTables_of_leads_chunked {layout : Layout} {offset : UInt32}
    (hleads : image.Leads layout offset) (hlayout : layout ≠ .legacy) :
    loadTables image encoding = loadChunked image encoding layout offset.toNat := by
  cases hleads with
  | legacy => exact absurd rfl hlayout
  | @enhanced width _ header =>
    obtain ⟨rest, hrest⟩ := header
    rw [List.drop_zero] at hrest
    unfold loadTables
    rw [← hrest]
    cases width with
    | wide | compact =>
      simp only [CodeWidth.tag, Bytes.le32, List.cons_append, List.nil_append, Bytes.ofLe32_le32]
      rfl
  | @legacyChunked width directory _ header tagged link =>
    obtain ⟨rest, hrest⟩ := header
    rw [List.drop_zero] at hrest
    unfold loadTables
    rw [← hrest]
    simp only [Bytes.le32, List.cons_append, List.nil_append, Bytes.ofLe32_le32]
    rw [if_neg (by decide), if_neg (by decide), if_neg (by decide), if_pos (by decide),
      chunkedTag?_eq_some_iff.mpr tagged, directoryWord_eq_ok_iff.mpr link]
    rfl

/-- **The order of chunks of different kinds does not matter.** Two chunked images have the same
layout and the same offset of their chunks, and for each kind that is read their chunks have the
same payloads in the same order. They may be interleaved in any way, with other chunks between
them, and what stands in front of the chunks may differ too. If each text ends in its chunk, and
the one image is accepted, then the other one is accepted if it is not shorter, and gives the same
scripts, functions, texts and memory. -/
theorem load_rearranged {layout : Layout} {offset : UInt32} {chunks chunks' : List Chunk}
    (hlayout : layout ≠ .legacy)
    (hleads : image.Leads layout offset) (hleads' : image'.Leads layout offset)
    (hrow : Chunk.Row offset.toNat chunks (image.toList.drop offset.toNat))
    (hrow' : Chunk.Row offset.toNat chunks' (image'.toList.drop offset.toNat))
    (hpayloads : ∀ kind, (Chunk.ofKind kind chunks).map Chunk.payload =
      (Chunk.ofKind kind chunks').map Chunk.payload)
    (hends : ∀ c ∈ Chunk.ofKind .strl chunks, c.TextsEnd)
    (hsize : image.size ≤ image'.size) {j j₁ : Journal} {p : Program}
    (hload : image.load encoding j = .ok p j₁) :
    ∀ j', ∃ j₁', image'.load encoding j' = .ok { p with image := image' } j₁' := by
  have hchunks : Follows (fun p => { p with image := image' })
      (loadChunked image encoding layout offset.toNat)
      (loadChunked image' encoding layout offset.toNat) := by
    unfold loadChunked
    dsimp only
    split
    · exact follows_throw_bind _ _ _ _
    · rename_i hinside
      rw [if_neg (by omega), Chunk.row_iff.mp hrow, Chunk.row_iff.mp hrow']
      exact follows_loadChunks hpayloads hends (hrow.stands rfl) (hrow'.stands rfl) hsize
  rw [← loadTables_of_leads_chunked hleads hlayout,
    ← loadTables_of_leads_chunked hleads' hlayout] at hchunks
  have hnote (d : Diagnostic) (q : Program) : Gives (do note d; pure q) q :=
    gives_bind (gives_note d) (gives_pure q)
  have hfollows : Follows (fun p => { p with image := image' }) (image.load encoding)
      (image'.load encoding) :=
    hchunks.bind fun q => (hnote _ q).follows (hnote _ { q with image := image' })
  exact hfollows j p j₁ hload

end Image

/-! ## An image that was rearranged -/

namespace Interleaved

def scripts : List UInt8 := Chunk.encode ChunkKind.sptr.id [1, 0, 1, 0, 8, 0, 0, 0, 0, 0, 0, 0]

def flags : List UInt8 := Chunk.encode ChunkKind.sflg.id [1, 0, 2, 0]

def arrays : List UInt8 := Chunk.encode ChunkKind.aray.id [3, 0, 0, 0, 2, 0, 0, 0]

/-- A value for the variable that holds the number of the array. -/
def values : List UInt8 := Chunk.encode ChunkKind.mini.id [3, 0, 0, 0, 9, 0, 0, 0]

def texts : List UInt8 :=
  Chunk.encode ChunkKind.strl.id [0, 0, 0, 0, 1, 0, 0, 0, 0, 0, 0, 0, 16, 0, 0, 0, 65, 0]

/-- A chunk of no known kind. -/
def unknown : List UInt8 := Chunk.encode [0x4C, 0x4F, 0x41, 0x44] [1, 2, 3]

def header : List UInt8 := CodeWidth.compact.tag ++ Bytes.le32 8

def given : Image := (header ++ (scripts ++ flags ++ arrays ++ values ++ texts)).toArray

/-- Flags and values stand in front of what they are for. -/
def rearranged : Image :=
  (header ++ (texts ++ values ++ unknown ++ flags ++ scripts ++ arrays)).toArray

def chunksOf (image : Image) : List Chunk :=
  (Chunk.split 8 (image.toList.drop 8)).toOption.getD []

theorem load_rearranged_interleaved :
    given.Leads (.enhanced .compact) 8 ∧ rearranged.Leads (.enhanced .compact) 8 ∧
    Chunk.Row 8 (chunksOf given) (given.toList.drop 8) ∧
    Chunk.Row 8 (chunksOf rearranged) (rearranged.toList.drop 8) ∧
    (∀ c ∈ Chunk.ofKind .strl (chunksOf given), c.TextsEnd) ∧ given.size ≤ rearranged.size ∧
    ∃ p j₁ j₁', given.load .utf8 default = .ok p j₁ ∧
      rearranged.load .utf8 default = .ok { p with image := rearranged } j₁' := by
  have hleads : given.Leads (.enhanced .compact) 8 := .enhanced ⟨_, rfl⟩
  have hleads' : rearranged.Leads (.enhanced .compact) 8 := .enhanced ⟨_, rfl⟩
  have hrow : Chunk.Row 8 (chunksOf given) (given.toList.drop 8) :=
    Chunk.row_iff.mpr (by decide +kernel)
  have hrow' : Chunk.Row 8 (chunksOf rearranged) (rearranged.toList.drop 8) :=
    Chunk.row_iff.mpr (by decide +kernel)
  have hpayloads (kind : ChunkKind) : (Chunk.ofKind kind (chunksOf given)).map Chunk.payload =
      (Chunk.ofKind kind (chunksOf rearranged)).map Chunk.payload := by
    cases kind <;> decide +kernel
  have hends : ∀ c ∈ Chunk.ofKind .strl (chunksOf given), c.TextsEnd := by decide +kernel
  have hsize : given.size ≤ rearranged.size := by decide +kernel
  obtain ⟨p, j₁, hload⟩ : ∃ p j₁, given.load .utf8 default = .ok p j₁ :=
    Image.exists_of_isAccepted (by decide +kernel)
  obtain ⟨j₁', hload'⟩ := Image.load_rearranged (by decide) hleads hleads' hrow hrow' hpayloads
    hends hsize hload default
  exact ⟨hleads, hleads', hrow, hrow', hends, hsize, p, j₁, j₁', hload, hload'⟩

end Interleaved

end LevelScript
