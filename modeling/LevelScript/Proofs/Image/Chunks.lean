import LevelScript.Proofs.Image.Bytes

/-!
# The grammar of chunks

Chunks stand one after another: four bytes that name the kind, the length of the payload, and the
payload. What is left behind the last one is shorter than a head. A length that runs past the end
is an error, whatever follows.

* `Chunk.Row`: chunks with the offsets of their payloads, head by head.
* `Chunk.Decomposes`, `Chunk.Located`: the same, told by the bytes as a whole.
* `Chunk.Overruns`: the first chunk that is too long.
* `Chunk.row_or_overruns`: all bytes are one or the other; `Chunk.row_iff`, `Chunk.overruns_iff`:
  which of the two `split` finds.
* `Chunk.split_exact`: `split` takes apart what the grammar allows and reports the rest.
-/

namespace LevelScript.Chunk

open Bytes (le32)

variable {offset : Nat} {bytes id payload tail rest : List UInt8} {chunks : List Chunk} {c : Chunk}

/-! ## Chunks head by head -/

/-- The bytes at an offset are chunks one after another. Less than the head of one more may
follow. -/
inductive Row : Nat → List Chunk → List UInt8 → Prop
  | nil {offset : Nat} {bytes : List UInt8} (short : bytes.length < 8) : Row offset [] bytes
  | cons {offset : Nat} {id payload : List UInt8} {chunks : List Chunk} {rest : List UInt8}
      (length_id : id.length = 4) (length_payload : payload.length < 2 ^ 32)
      (row : Row (offset + 8 + payload.length) chunks rest) :
    Row offset (⟨id, payload, offset + 8⟩ :: chunks) (Chunk.encode id payload ++ rest)

theorem length_encode (hid : id.length = 4) (payload : List UInt8) :
    (encode id payload).length = 8 + payload.length := by
  rw [encode, List.length_append, List.length_append, hid, Bytes.length_le32]

theorem split_of_row (h : Row offset chunks bytes) : split offset bytes = .ok chunks := by
  induction h with
  | nil short => exact split_short short _
  | cons length_id length_payload _ ih =>
    rw [split_encode length_id length_payload, ih]
    rfl

/-- The payload of a chunk stands at its offset. -/
theorem Row.stands {image : Image} (h : Row offset chunks bytes)
    (hbytes : bytes = image.toList.drop offset) :
    ∀ c ∈ chunks, image.Stands c.offset c.payload := by
  induction h with
  | nil => simp
  | @cons offset id payload chunks rest length_id _ _ ih =>
    have hpayload : image.Stands (offset + 8) payload := by
      have hchunk : image.Stands offset (encode id payload) := ⟨rest, hbytes⟩
      rw [encode, Image.stands_append, List.length_append, length_id, Bytes.length_le32] at hchunk
      exact hchunk.2
    have hrest : rest = image.toList.drop (offset + 8 + payload.length) := by
      rw [Nat.add_assoc, ← length_encode length_id, ← List.drop_drop, ← hbytes, List.drop_left]
    intro c hc
    rcases List.mem_cons.mp hc with rfl | hmem
    · exact hpayload
    · exact ih hrest c hmem

/-! ## Chunks as a whole -/

/-- A chunk as it stands in an image. -/
def toBytes (c : Chunk) : List UInt8 := encode c.id c.payload

/-- A head has room for the kind and for the length of the payload. -/
structure Sized (c : Chunk) : Prop where
  id : c.id.length = 4
  payload : c.payload.length < 2 ^ 32

/-- The bytes are the chunks, and then a tail that is shorter than a head. -/
structure Decomposes (bytes : List UInt8) (chunks : List Chunk) (tail : List UInt8) : Prop where
  eq : bytes = chunks.flatMap toBytes ++ tail
  sized : ∀ c ∈ chunks, c.Sized
  short : tail.length < 8

/-- Each chunk has the offset of its payload, if the first head is at `start`. -/
def Located (start : Nat) (chunks : List Chunk) : Prop :=
  ∀ before c after, chunks = before ++ c :: after →
    c.offset = start + (before.flatMap toBytes).length + 8

/-- Behind the chunks `before` stands the head of one that is longer than what is left. -/
structure Overruns (bytes : List UInt8) (before : List Chunk) (id : List UInt8)
    (declared : UInt32) : Prop where
  sized : ∀ c ∈ before, c.Sized
  length_id : id.length = 4
  past : ∃ rest, bytes = before.flatMap toBytes ++ (id ++ (le32 declared ++ rest)) ∧
    rest.length < declared.toNat

theorem decomposes_cons :
    Decomposes bytes (c :: chunks) tail ↔
      c.Sized ∧ ∃ rest, bytes = c.toBytes ++ rest ∧ Decomposes rest chunks tail := by
  constructor
  · rintro ⟨rfl, hsized, hshort⟩
    refine ⟨hsized c List.mem_cons_self, _, ?_, rfl, fun d hd => hsized d (by simp [hd]), hshort⟩
    rw [List.flatMap_cons, List.append_assoc]
  · rintro ⟨hc, rest, rfl, rfl, hsized, hshort⟩
    refine ⟨?_, fun d hd => ?_, hshort⟩
    · rw [List.flatMap_cons, List.append_assoc]
    · rcases List.mem_cons.mp hd with rfl | hd
      · exact hc
      · exact hsized d hd

theorem located_cons (hc : c.Sized) :
    Located offset (c :: chunks) ↔
      c.offset = offset + 8 ∧ Located (offset + 8 + c.payload.length) chunks := by
  have hlength : c.toBytes.length = 8 + c.payload.length := length_encode hc.id _
  constructor
  · intro h
    refine ⟨h [] c chunks rfl, fun before d after heq => ?_⟩
    have hd := h (c :: before) d after (congrArg (c :: ·) heq)
    rw [List.flatMap_cons, List.length_append] at hd
    omega
  · rintro ⟨hoffset, hrest⟩ before d after heq
    cases before with
    | nil =>
      obtain ⟨rfl, -⟩ := List.cons.inj heq
      exact hoffset
    | cons b before =>
      obtain ⟨rfl, hchunks⟩ := List.cons.inj heq
      have hd := hrest before d after hchunks
      rw [List.flatMap_cons, List.length_append]
      omega

theorem row_iff_located :
    Row offset chunks bytes ↔
      (∃ tail, Decomposes bytes chunks tail) ∧ Located offset chunks := by
  constructor
  · intro h
    induction h with
    | @nil offset bytes short =>
      exact ⟨⟨bytes, rfl, by simp, short⟩, fun before c after heq => by simp at heq⟩
    | cons length_id length_payload _ ih =>
      obtain ⟨⟨tail, htail⟩, hlocated⟩ := ih
      exact ⟨⟨tail, decomposes_cons.mpr ⟨⟨length_id, length_payload⟩, _, rfl, htail⟩⟩,
        (located_cons ⟨length_id, length_payload⟩).mpr ⟨rfl, hlocated⟩⟩
  · rintro ⟨⟨tail, h⟩, hlocated⟩
    induction chunks generalizing offset bytes with
    | nil =>
      obtain ⟨rfl, -, hshort⟩ := h
      exact .nil hshort
    | cons c chunks ih =>
      obtain ⟨hc, rest, rfl, hrest⟩ := decomposes_cons.mp h
      obtain ⟨hoffset, hlocated⟩ := (located_cons hc).mp hlocated
      obtain ⟨id, payload, place⟩ := c
      subst hoffset
      exact .cons hc.id hc.payload (ih hlocated hrest)

/-- What a chunk is, wherever it stands. -/
def piece (c : Chunk) : List UInt8 × List UInt8 := (c.id, c.payload)

/-- Whatever offsets the chunks have, the bytes are a row of them. -/
theorem Decomposes.exists_row (h : Decomposes bytes chunks tail) (offset : Nat) :
    ∃ row, Row offset row bytes ∧ row.map piece = chunks.map piece := by
  induction chunks generalizing offset bytes with
  | nil =>
    obtain ⟨rfl, -, hshort⟩ := h
    exact ⟨[], .nil hshort, rfl⟩
  | cons c chunks ih =>
    obtain ⟨hc, rest, rfl, hrest⟩ := decomposes_cons.mp h
    obtain ⟨row, hrow, hpieces⟩ := ih hrest (offset + 8 + c.payload.length)
    exact ⟨_, .cons hc.id hc.payload hrow, congrArg (c.piece :: ·) hpieces⟩

/-- Bytes are taken apart in one way only. -/
theorem Decomposes.unique {chunks' : List Chunk} {tail' : List UInt8}
    (h : Decomposes bytes chunks tail) (h' : Decomposes bytes chunks' tail') :
    chunks.map piece = chunks'.map piece ∧ tail = tail' := by
  obtain ⟨row, hrow, hpieces⟩ := h.exists_row 0
  obtain ⟨row', hrow', hpieces'⟩ := h'.exists_row 0
  have hrows : row = row' :=
    Except.ok.inj ((split_of_row hrow).symm.trans (split_of_row hrow'))
  have hsame : chunks.map piece = chunks'.map piece := by rw [← hpieces, hrows, hpieces']
  refine ⟨hsame, ?_⟩
  have hflat (cs : List Chunk) :
      cs.flatMap toBytes = (cs.map piece).flatMap fun p => encode p.1 p.2 := by
    rw [List.flatMap_map]
    rfl
  have heq := h.eq.symm.trans h'.eq
  rw [hflat, hflat, hsame] at heq
  exact List.append_cancel_left heq

/-! ## Which bytes are chunks -/

/-- Bytes with room for a head begin with a chunk, or with the head of one that is too long. -/
theorem exists_front (h : 8 ≤ bytes.length) :
    (∃ id payload rest, id.length = 4 ∧ payload.length < 2 ^ 32 ∧
      bytes = encode id payload ++ rest) ∨
    ∃ id declared rest, id.length = 4 ∧ rest.length < declared.toNat ∧
      bytes = id ++ (le32 declared ++ rest) := by
  obtain ⟨a, b, c, d, rest, rfl, hrest⟩ := exists_four bytes (by omega)
  obtain ⟨l₀, l₁, l₂, l₃, rest, rfl, -⟩ := exists_four rest (by omega)
  obtain ⟨word, hword⟩ : ∃ word, le32 word = [l₀, l₁, l₂, l₃] := ⟨_, Bytes.le32_ofLe32 l₀ l₁ l₂ l₃⟩
  have hhead : a :: b :: c :: d :: l₀ :: l₁ :: l₂ :: l₃ :: rest =
      [a, b, c, d] ++ (le32 word ++ rest) := by
    rw [hword]
    rfl
  rw [hhead]
  by_cases hpast : rest.length < word.toNat
  · exact .inr ⟨_, word, rest, rfl, hpast, rfl⟩
  · have hpayload : (rest.take word.toNat).length = word.toNat :=
      List.length_take_of_le (Nat.not_lt.mp hpast)
    refine .inl ⟨[a, b, c, d], rest.take word.toNat, rest.drop word.toNat, rfl, ?_, ?_⟩
    · rw [hpayload]
      exact word.toNat_lt
    · have hcount : word.toNat.toUInt32 = word := UInt32.ofNat_toNat
      rw [encode, hpayload, hcount, List.append_assoc, List.append_assoc, List.take_append_drop]

theorem Overruns.cons {before : List Chunk} {declared : UInt32} (hc : c.Sized)
    (h : Overruns rest before id declared) :
    Overruns (c.toBytes ++ rest) (c :: before) id declared where
  sized d hd := by
    rcases List.mem_cons.mp hd with rfl | hd
    · exact hc
    · exact h.sized d hd
  length_id := h.length_id
  past := by
    obtain ⟨more, rfl, hpast⟩ := h.past
    exact ⟨more, by rw [List.flatMap_cons, List.append_assoc], hpast⟩

/-- All bytes are chunks, or chunks up to one that is too long. -/
theorem row_or_overruns (offset : Nat) (bytes : List UInt8) :
    (∃ chunks, Row offset chunks bytes) ∨
      ∃ before id declared, Overruns bytes before id declared := by
  induction hlength : bytes.length using Nat.strongRecOn generalizing offset bytes with
  | ind length ih =>
    by_cases hshort : bytes.length < 8
    · exact .inl ⟨[], .nil hshort⟩
    · rcases exists_front (Nat.not_lt.mp hshort) with
        ⟨id, payload, rest, hid, hpayload, rfl⟩ | ⟨id, declared, rest, hid, hpast, rfl⟩
      · rw [List.length_append, length_encode hid] at hlength
        rcases ih rest.length (by omega) (offset + 8 + payload.length) rest rfl with
          ⟨chunks, hrow⟩ | ⟨before, id', declared, hover⟩
        · exact .inl ⟨_, .cons hid hpayload hrow⟩
        · have hc : (⟨id, payload, offset + 8⟩ : Chunk).Sized := ⟨hid, hpayload⟩
          exact .inr ⟨_, id', declared, hover.cons hc⟩
      · exact .inr ⟨[], id, declared, by simp, hid, rest, rfl, hpast⟩

/-- The error for a chunk that is too long, by its kind and where its head is. -/
theorem split_of_overruns {before : List Chunk} {declared : UInt32}
    (h : Overruns bytes before id declared) (offset : Nat) :
    split offset bytes = .error (.badChunk (Text.Utf8.decodeLossy id)
      (offset + (before.flatMap toBytes).length)) := by
  obtain ⟨hsized, hid, rest, rfl, hpast⟩ := h
  induction before generalizing offset with
  | nil =>
    obtain ⟨a, b, c, d, rfl⟩ := List.length_eq_four.mp hid
    simp only [List.flatMap_nil, le32, List.cons_append, List.nil_append]
    rw [split, Bytes.ofLe32_le32]
    exact if_pos hpast
  | cons c before ih =>
    have hc := hsized c List.mem_cons_self
    rw [List.flatMap_cons, List.append_assoc, toBytes, split_encode hc.id hc.payload,
      ih _ fun d hd => hsized d (List.mem_cons_of_mem _ hd), List.length_append,
      length_encode hc.id, Nat.add_assoc, Nat.add_assoc, ← Nat.add_assoc 8]
    rfl

theorem row_iff : Row offset chunks bytes ↔ split offset bytes = .ok chunks := by
  refine ⟨split_of_row, fun h => ?_⟩
  rcases row_or_overruns offset bytes with ⟨row, hrow⟩ | ⟨before, id, declared, hover⟩
  · rw [split_of_row hrow] at h
    exact Except.ok.inj h ▸ hrow
  · rw [split_of_overruns hover] at h
    cases h

theorem overruns_iff {e : LoadError} :
    split offset bytes = .error e ↔ ∃ before id declared, Overruns bytes before id declared ∧
      e = .badChunk (Text.Utf8.decodeLossy id) (offset + (before.flatMap toBytes).length) := by
  constructor
  · intro h
    rcases row_or_overruns offset bytes with ⟨row, hrow⟩ | ⟨before, id, declared, hover⟩
    · rw [split_of_row hrow] at h
      cases h
    · rw [split_of_overruns hover] at h
      exact ⟨before, id, declared, hover, (Except.error.inj h).symm⟩
  · rintro ⟨before, id, declared, hover, rfl⟩
    exact split_of_overruns hover offset

/-- **The chunks of an image are what its bytes say.** From any place on, the bytes are taken apart
into chunks exactly if they are these chunks and a tail that is shorter than a head, which is so
for one list of chunks at most; and each chunk has the offset at which its payload stands in the
image. Otherwise the first chunk that runs past the end is reported, by its kind and the offset of
its head. -/
theorem split_exact (image : Image) (start : Nat) :
    (∀ chunks, split start (image.toList.drop start) = .ok chunks ↔
      (∃ tail, Decomposes (image.toList.drop start) chunks tail) ∧ Located start chunks) ∧
    (∀ chunks tail chunks' tail', Decomposes (image.toList.drop start) chunks tail →
      Decomposes (image.toList.drop start) chunks' tail' →
      chunks.map piece = chunks'.map piece ∧ tail = tail') ∧
    (∀ chunks, split start (image.toList.drop start) = .ok chunks → ∀ c ∈ chunks,
      c.offset + c.payload.length ≤ image.size ∧
      (image.extract c.offset (c.offset + c.payload.length)).toList = c.payload) ∧
    ∀ e, split start (image.toList.drop start) = .error e ↔
      ∃ before id declared, Overruns (image.toList.drop start) before id declared ∧
        e = .badChunk (Text.Utf8.decodeLossy id)
          (start + (before.flatMap toBytes).length) := by
  refine ⟨fun chunks => row_iff.symm.trans row_iff_located, fun _ _ _ _ h h' => h.unique h',
    fun chunks h c hc => ⟨?_, ?_⟩, fun e => overruns_iff⟩
  · obtain ⟨⟨tail, hbytes, hsized, -⟩, hlocated⟩ := row_iff_located.mp (row_iff.mpr h)
    obtain ⟨before, after, rfl⟩ := List.append_of_mem hc
    have hplace := hlocated before c after rfl
    have hlength := congrArg List.length hbytes
    rw [List.flatMap_append, List.flatMap_cons, List.length_append, List.length_append,
      List.length_append, toBytes, length_encode (hsized c hc).id, List.length_drop,
      Array.length_toList] at hlength
    omega
  · exact Image.extract_of_stands ((row_iff.mpr h).stands rfl c hc) rfl

-- A payload may end where the bytes end, but not one byte later.
example : split 4 ([0x41, 0x42, 0x43, 0x44] ++ le32 2 ++ [1, 2]) =
    .ok [⟨[0x41, 0x42, 0x43, 0x44], [1, 2], 12⟩] := by
  decide +kernel

example : split 4 ([0x41, 0x42, 0x43, 0x44] ++ le32 3 ++ [1, 2]) = .error (.badChunk "ABCD" 4) := by
  decide +kernel

end LevelScript.Chunk
