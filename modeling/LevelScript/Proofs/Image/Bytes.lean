import Mathlib.Data.List.Basic
import LevelScript.Image.Basic
import LevelScript.Image.Chunk
import LevelScript.Proofs.Bytes.LittleEndian

/-!
# Bytes in an image

* `Image.Stands`: bytes stand at a place of an image.
* `Image.word?_eq_some_iff`, `Image.literalAt_of_stands`: words and literals are read where they
  stand.
* `Chunk.split_encode`: a chunk is split off where it stands in front.
-/

namespace LevelScript

theorem exists_four (bytes : List UInt8) (h : 4 ≤ bytes.length) :
    ∃ b₀ b₁ b₂ b₃ rest, bytes = b₀ :: b₁ :: b₂ :: b₃ :: rest ∧ rest.length + 4 = bytes.length := by
  match bytes with
  | b₀ :: b₁ :: b₂ :: b₃ :: rest => exact ⟨b₀, b₁, b₂, b₃, rest, rfl, rfl⟩
  | [] | [_] | [_, _] | [_, _, _] => simp at h

/-- The bytes stand at a place of the image. -/
def Image.Stands (image : Image) (place : Nat) (bytes : List UInt8) : Prop :=
  bytes <+: image.toList.drop place

namespace Image

variable {image : Image} {place : Nat} {xs ys : List UInt8}

theorem stands_append : image.Stands place (xs ++ ys) ↔
    image.Stands place xs ∧ image.Stands (place + xs.length) ys := by
  unfold Stands
  constructor
  · rintro ⟨back, h⟩
    rw [List.append_assoc] at h
    refine ⟨⟨ys ++ back, h⟩, back, ?_⟩
    rw [← List.drop_drop, ← h, List.drop_left]
  · rintro ⟨⟨rest, h⟩, back, h'⟩
    rw [← List.drop_drop, ← h, List.drop_left] at h'
    exact ⟨back, by rw [List.append_assoc, h', h]⟩

theorem Stands.le (h : image.Stands place xs) (hne : xs ≠ []) :
    place + xs.length ≤ image.size := by
  have hlength := h.length_le
  have hpos := List.length_pos_iff.mpr hne
  have hsize : image.toList.length = image.size := Array.length_toList
  rw [List.length_drop, hsize] at hlength
  omega

theorem Stands.getElem? (h : image.Stands place xs) {i : Nat} (hi : i < xs.length) :
    image[place + i]? = xs[i]? := by
  obtain ⟨back, h⟩ := h
  rw [← List.getElem?_append_left hi, h, List.getElem?_drop]
  exact Array.getElem?_toList.symm

theorem stands_of_toList (h : image.toList = xs) : image.Stands 0 xs :=
  h ▸ List.prefix_refl _

theorem extract_of_stands (h : image.Stands place xs) {stop : Nat}
    (hstop : place + xs.length = stop) : (image.extract place stop).toList = xs := by
  rw [Array.toList_extract, List.extract_eq_take_drop, ← hstop, Nat.add_sub_cancel_left]
  exact (List.prefix_iff_eq_take.mp h).symm

theorem stands_of_extract {stop : Nat} (h : (image.extract place stop).toList = xs) :
    image.Stands place xs := by
  rw [Array.toList_extract, List.extract_eq_take_drop] at h
  exact h ▸ List.take_prefix _ _

theorem Stands.unique (h : image.Stands place xs) (h' : image.Stands place ys)
    (hlength : xs.length = ys.length) : xs = ys :=
  (List.prefix_of_prefix_length_le h h' (Nat.le_of_eq hlength)).eq_of_length hlength

theorem word?_of_stands {v : UInt32} (h : image.Stands place (Bytes.le32 v)) :
    image.word? place = some v := by
  have hle : place + 4 ≤ image.size := h.le (by simp [Bytes.le32])
  have hbyte : ∀ i (hi : i < 4), image[place + i] = (Bytes.le32 v)[i] := by
    intro i hi
    have hi' := h.getElem? hi
    rwa [Array.getElem?_eq_getElem (by omega), List.getElem?_eq_getElem hi, Option.some_inj] at hi'
  have h₀ := hbyte 0 (by omega)
  rw [word?, dif_pos hle, ← Bytes.ofLe32_le32 v]
  have h₁ := hbyte 1 (by omega)
  have h₂ := hbyte 2 (by omega)
  have h₃ := hbyte 3 (by omega)
  simp only [Nat.add_zero] at h₀
  rw [h₀, h₁, h₂, h₃]
  rfl

theorem word?_eq_some_iff {v : UInt32} :
    image.word? place = some v ↔ image.Stands place (Bytes.le32 v) := by
  refine ⟨fun h => ?_, word?_of_stands⟩
  unfold word? at h
  split at h
  · rename_i hle
    rw [← Option.some.inj h, Bytes.le32_ofLe32]
    have hlength : image.toList.length = image.size := Array.length_toList
    unfold Stands
    rw [List.drop_eq_getElem_cons (by omega), List.drop_eq_getElem_cons (by omega),
      List.drop_eq_getElem_cons (by omega), List.drop_eq_getElem_cons (by omega)]
    exact ⟨_, rfl⟩
  · cases h

/-- A literal ends at its first zero byte. -/
theorem literalAt_of_stands (h : image.Stands place xs) (hzero : 0 ∈ xs) :
    image.literalAt place = xs.takeWhile (· != 0) := by
  induction xs generalizing place with
  | nil => simp at hzero
  | cons b rest ih =>
    have hle : place + (b :: rest).length ≤ image.size := h.le (by simp)
    have hb : image[place]? = some b := h.getElem? (i := 0) (by simp)
    have hlt : place < image.size := by
      rw [List.length_cons] at hle
      omega
    have hrest : image.Stands (place + 1) rest := by
      rw [← List.singleton_append, stands_append] at h
      exact h.2
    rw [Array.getElem?_eq_getElem hlt, Option.some_inj] at hb
    rw [literalAt, dif_pos hlt, hb]
    by_cases hb0 : b = 0
    · rw [if_pos hb0, hb0]
      rfl
    · have hzero' : 0 ∈ rest := by
        obtain heq | hmem := List.mem_cons.mp hzero
        · exact absurd heq.symm hb0
        · exact hmem
      rw [if_neg hb0, ih hrest hzero', List.takeWhile_cons, if_pos (by simpa using hb0)]

theorem words_le32 (v : UInt32) (rest : List UInt8) :
    Chunk.words (Bytes.le32 v ++ rest) = v :: Chunk.words rest := by
  simp only [Bytes.le32, List.cons_append, List.nil_append, Chunk.words, Bytes.ofLe32_le32]

theorem words_flatMap (vs : List UInt32) (rest : List UInt8) :
    Chunk.words (vs.flatMap Bytes.le32 ++ rest) = vs ++ Chunk.words rest := by
  induction vs with
  | nil => rfl
  | cons v vs ih => rw [List.flatMap_cons, List.append_assoc, words_le32, ih, List.cons_append]

end Image

namespace Chunk

theorem split_encode {id payload : List UInt8} (hid : id.length = 4)
    (hsize : payload.length < 2 ^ 32) (offset : Nat) (rest : List UInt8) :
    split offset (encode id payload ++ rest) =
      (split (offset + 8 + payload.length) rest).map (⟨id, payload, offset + 8⟩ :: ·) := by
  have hlength : payload.length.toUInt32.toNat = payload.length :=
    UInt32.toNat_ofNat_of_lt' hsize
  obtain ⟨a, b, c, d, rfl⟩ := List.length_eq_four.mp hid
  rw [encode]
  simp only [Bytes.le32, List.cons_append, List.nil_append]
  rw [split]
  simp only [Bytes.ofLe32_le32, hlength, List.drop_left, List.take_left]
  rw [if_neg (by simp)]

theorem split_short {bytes : List UInt8} (h : bytes.length < 8) (offset : Nat) :
    split offset bytes = .ok [] := by
  rw [split]
  intro a b c d l₀ l₁ l₂ l₃ rest hlong
  rw [hlong] at h
  simp only [List.length_cons] at h
  omega

end Chunk

end LevelScript
