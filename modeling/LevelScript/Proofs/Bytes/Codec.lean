import LevelScript.Bytes.Codec
import LevelScript.Proofs.Bytes.LittleEndian
import LevelScript.Proofs.Text.Utf8

/-!
# Codecs read back what they write

Every codec reads its own bytes back in front of any other bytes, as long as there are fewer than
2 ^ 64 of them: lengths are written in 64 bits.

* `Codec.Lawful`: the law, and that no value is written as nothing.
* One lemma for each way to make a codec.
-/

namespace LevelScript.Codec

variable {α β : Type}

/-- Values are read back in front of any bytes, and none is written as nothing. -/
structure Lawful (c : Codec α) : Prop where
  decode_encode : ∀ a rest, (c.encode a).length < 2 ^ 64 →
    c.decode (c.encode a ++ rest) = .ok (a, rest)
  encode_ne_nil : ∀ a, 0 < (c.encode a).length

/-! ## Words -/

theorem lawful_byte : byte.Lawful := ⟨fun _ _ _ => rfl, fun _ => Nat.one_pos⟩

theorem lawful_word : word.Lawful := by
  refine ⟨fun v rest _ => ?_, fun v => by simp [word]⟩
  have hdecode : word.decode (word.encode v ++ rest) = .ok (Bytes.ofLe32 v.toUInt8 (v >>> 8).toUInt8
    (v >>> 16).toUInt8 (v >>> 24).toUInt8, rest) := rfl
  rw [hdecode, Bytes.ofLe32_le32]

theorem long_decode (v : UInt64) (rest : List UInt8) :
    long.decode (long.encode v ++ rest) = .ok (v, rest) := by
  have hdecode : long.decode (long.encode v ++ rest) = .ok (Bytes.ofLe64 v.toUInt8
    (v >>> 8).toUInt8 (v >>> 16).toUInt8 (v >>> 24).toUInt8 (v >>> 32).toUInt8 (v >>> 40).toUInt8
    (v >>> 48).toUInt8 (v >>> 56).toUInt8, rest) := rfl
  rw [hdecode, Bytes.ofLe64_le64]

theorem lawful_long : long.Lawful := ⟨fun v rest _ => long_decode v rest, fun v => by simp [long]⟩

/-! ## Combining codecs -/

theorem Lawful.convert {c : Codec α} (hc : c.Lawful) {write : β → α} {read : α → β}
    (h : ∀ b, read (write b) = b) : (c.convert write read).Lawful := by
  refine ⟨fun b rest hlen => ?_, fun b => hc.encode_ne_nil (write b)⟩
  simp only [Codec.convert]
  rw [hc.decode_encode _ _ hlen]
  dsimp only
  rw [h]

theorem Lawful.refine {c : Codec α} (hc : c.Lawful) {write : β → α}
    {read : α → Except DecodeError β} (h : ∀ b, read (write b) = .ok b) :
    (c.refine write read).Lawful := by
  constructor
  · intro b rest hlen
    simp only [Codec.refine]
    rw [hc.decode_encode _ _ hlen]
    dsimp only
    rw [h]
    rfl
  · exact fun b => hc.encode_ne_nil (write b)

theorem Lawful.pair {c : Codec α} {d : Codec β} (hc : c.Lawful) (hd : d.Lawful) :
    (c.pair d).Lawful := by
  constructor
  · intro p rest hlen
    simp only [Codec.pair, List.length_append] at hlen ⊢
    rw [List.append_assoc, hc.decode_encode _ _ (by omega)]
    dsimp only
    rw [hd.decode_encode _ _ (by omega)]
  · intro p
    have := hc.encode_ne_nil p.1
    simp only [Codec.pair, List.length_append]
    omega

theorem lawful_int : int.Lawful := lawful_word.convert fun v => Int32.toInt32_toUInt32 v

theorem lawful_bool : bool.Lawful := lawful_byte.refine fun b => by cases b <;> rfl

theorem Lawful.option {c : Codec α} (hc : c.Lawful) : c.option.Lawful := by
  constructor
  · intro o rest hlen
    cases o with
    | none => rfl
    | some a =>
      simp only [Codec.option, List.length_cons, List.cons_append] at hlen ⊢
      rw [hc.decode_encode _ _ (by omega)]
  · intro o
    cases o with
    | none => exact Nat.one_pos
    | some a => exact Nat.succ_pos _

/-! ## Lists -/

theorem decodeMany_flatMap {c : Codec α} (hc : c.Lawful) (as read : List α) (rest : List UInt8)
    (hlen : (as.flatMap c.encode).length < 2 ^ 64) :
    decodeMany c as.length read (as.flatMap c.encode ++ rest) =
      .ok (read.reverse ++ as, rest) := by
  induction as generalizing read with
  | nil => simp [decodeMany]
  | cons a as ih =>
    rw [List.flatMap_cons, List.length_append] at hlen
    rw [List.length_cons, List.flatMap_cons, List.append_assoc, decodeMany,
      hc.decode_encode _ _ (by omega)]
    dsimp only
    rw [ih _ (by omega), List.reverse_cons, List.append_assoc, List.singleton_append]

/-- There are no more values than bytes. -/
theorem length_le_flatMap {c : Codec α} (hc : c.Lawful) (as : List α) :
    as.length ≤ (as.flatMap c.encode).length := by
  induction as with
  | nil => simp
  | cons a as ih =>
    have := hc.encode_ne_nil a
    rw [List.flatMap_cons, List.length_append, List.length_cons]
    omega

theorem toNat_toUInt64 {n : Nat} (h : n < 2 ^ 64) : n.toUInt64.toNat = n := by
  rw [Nat.toUInt64, UInt64.toNat_ofNat']
  omega

theorem Lawful.list {c : Codec α} (hc : c.Lawful) : c.list.Lawful := by
  constructor
  · intro as rest hlen
    simp only [Codec.list, List.length_append] at hlen ⊢
    have hle := length_le_flatMap hc as
    rw [List.append_assoc, long_decode]
    dsimp only
    rw [toNat_toUInt64 (by omega), decodeMany_flatMap hc as [] rest (by omega)]
    rfl
  · intro as
    simp only [Codec.list, long, List.length_append, Bytes.length_le64]
    omega

theorem Lawful.array {c : Codec α} (hc : c.Lawful) : c.array.Lawful :=
  hc.list.convert fun _ => rfl

theorem takeBytes_append (bytes taken rest : List UInt8) :
    takeBytes bytes.length taken (bytes ++ rest) = some (taken.reverse ++ bytes, rest) := by
  induction bytes generalizing taken with
  | nil => simp [takeBytes]
  | cons b bytes ih =>
    rw [List.length_cons, List.cons_append, takeBytes, ih, List.reverse_cons, List.append_assoc,
      List.singleton_append]

theorem lawful_block {n : Nat} (hn : 0 < n) : (block n).Lawful := by
  constructor
  · intro v rest _
    have htake := takeBytes_append v.toList [] rest
    rw [Vector.length_toList] at htake
    simp only [block]
    rw [htake, List.reverse_nil, List.nil_append]
    dsimp only
    rw [dif_pos (by simp)]
    cases v
    rfl
  · intro v
    simp only [block, Vector.length_toList]
    exact hn

theorem lawful_text : text.Lawful := by
  constructor
  · intro t rest hlen
    simp only [text, List.length_append] at hlen ⊢
    rw [List.append_assoc, long_decode]
    dsimp only
    rw [toNat_toUInt64 (by omega), takeBytes_append, List.reverse_nil, List.nil_append]
    dsimp only
    rw [Text.Utf8.decode?_encode]
  · intro t
    simp only [text, long, List.length_append, Bytes.length_le64]
    omega

/-! ## Cases -/

theorem lawful_enumeration [DecidableEq α] {values : List α} (hmem : ∀ a, a ∈ values)
    (hlen : values.length ≤ 2 ^ 32) : (enumeration values).Lawful := by
  refine lawful_word.refine fun a => ?_
  have hlt := List.idxOf_lt_length_of_mem (hmem a)
  have hnat : (values.idxOf a).toUInt32.toNat = values.idxOf a := by
    rw [Nat.toUInt32, UInt32.toNat_ofNat']
    omega
  rw [hnat, List.getElem?_eq_getElem hlt, List.getElem_idxOf]

/-- Bytes that are the word of a case and what the reader of the case reads back. -/
def ReadsCase (decodeCase : Nat → Option (Decoder α)) (bytes : List UInt8) (a : α) : Prop :=
  ∃ n d body, n < 2 ^ 32 ∧ decodeCase n = some d ∧ bytes = caseOf n ++ body ∧
    ∀ rest, body.length < 2 ^ 64 → d (body ++ rest) = .ok (a, rest)

section Cases

variable {decodeCase : Nat → Option (Decoder α)} {n : Nat}

theorem readsCase_plain {a : α} (hn : n < 2 ^ 32) (h : decodeCase n = some (plain a)) :
    ReadsCase decodeCase (caseOf n) a :=
  ⟨n, _, [], hn, h, (List.append_nil _).symm, fun _ _ => rfl⟩

theorem readsCase_part {c : Codec β} (hc : c.Lawful) {make : β → α} (hn : n < 2 ^ 32)
    (h : decodeCase n = some (part c make)) (b : β) :
    ReadsCase decodeCase (caseOf n ++ c.encode b) (make b) := by
  refine ⟨n, _, c.encode b, hn, h, rfl, fun rest hlen => ?_⟩
  rw [part, hc.decode_encode _ _ hlen]

theorem lawful_cases {encode : α → List UInt8} (count : Nat)
    (h : ∀ a, ReadsCase decodeCase (encode a) a) : Lawful ⟨encode, cases count decodeCase⟩ := by
  constructor
  · intro a rest hlen
    obtain ⟨n, d, body, hn, hd, hbytes, hbody⟩ := h a
    have hnat : n.toUInt32.toNat = n := by
      rw [Nat.toUInt32, UInt32.toNat_ofNat']
      omega
    have hword : word.decode (caseOf n ++ (body ++ rest)) = .ok (n.toUInt32, body ++ rest) :=
      lawful_word.decode_encode _ _ (by simp [word])
    dsimp only at hlen ⊢
    rw [hbytes, List.length_append] at hlen
    rw [hbytes, List.append_assoc, cases, hword]
    dsimp only
    rw [hnat, hd]
    exact hbody rest (by omega)
  · intro a
    obtain ⟨n, d, body, -, -, hbytes, -⟩ := h a
    dsimp only
    rw [hbytes, List.length_append, caseOf]
    have := lawful_word.encode_ne_nil n.toUInt32
    omega

end Cases

end LevelScript.Codec
