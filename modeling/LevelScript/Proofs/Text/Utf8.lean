import Mathlib.Tactic.Common
import LevelScript.Text.Utf8

/-!
# Texts are read back

A text that is written as bytes is read back whole: its bytes are the characters, one after the
other, with nothing broken and nothing cut. And no other bytes are read as that text: ranges of
the bytes leave each character one form.

* `itemsFrom_encodeChar`: the bytes of one character are that character.
* `decode?_encode`: the bytes of a text are that text.
* `encode_of_decode?`: bytes that are read as a text are its bytes.
-/

namespace LevelScript.Text.Utf8

/-! ## First bytes -/

section Lead

variable {b : UInt8}

theorem lead_whole (h : b.toNat < 0x80) : lead b = .whole := by
  have hlt : b < 0x80 := UInt8.lt_iff_toNat_lt.mpr h
  rw [lead, if_pos hlt]

/-- What the first byte of a longer character begins, by the byte's number. -/
theorem lead_begun (h : 0xC2 ≤ b.toNat) (h' : b.toNat ≤ 0xF4) :
    lead b = .begun (
      if b.toNat < 0xE0 then ⟨b.toNat - 0xC0, 1, 1, 0x80, 0xBF⟩
      else if b.toNat = 0xE0 then ⟨0, 1, 2, 0xA0, 0xBF⟩
      else if b.toNat = 0xED then ⟨0xD, 1, 2, 0x80, 0x9F⟩
      else if b.toNat < 0xF0 then ⟨b.toNat - 0xE0, 1, 2, 0x80, 0xBF⟩
      else if b.toNat = 0xF0 then ⟨0, 1, 3, 0x90, 0xBF⟩
      else if b.toNat < 0xF4 then ⟨b.toNat - 0xF0, 1, 3, 0x80, 0xBF⟩
      else ⟨4, 1, 3, 0x80, 0x8F⟩) := by
  have hlt : ∀ n : UInt8, b < n ↔ b.toNat < n.toNat := fun n => UInt8.lt_iff_toNat_lt
  have heq : ∀ n : UInt8, (b == n) = true ↔ b.toNat = n.toNat := fun n => by
    rw [beq_iff_eq, ← UInt8.toNat_inj]
  unfold lead
  simp only [hlt, heq, UInt8.reduceToNat]
  repeat' split
  all_goals first
    | rfl
    | omega

end Lead

/-! ## Later bytes -/

theorem toNat_ofNat {n : Nat} (h : n < 256) : (UInt8.ofNat n).toNat = n := by
  rw [UInt8.toNat_ofNat']
  omega

/-- A byte that continues a character adds six bits to it. -/
theorem itemsFrom_later {p : Partial} {n : Nat} (hn : n < 64) (hlow : p.low.toNat ≤ n + 0x80)
    (hhigh : n + 0x80 ≤ p.high.toNat) (rest : List UInt8) :
    itemsFrom (some p) (UInt8.ofNat (n + 128) :: rest) =
      if p.missing = 1 then .char (Char.ofNat (p.bits * 64 + n)) :: itemsFrom none rest
      else itemsFrom (some ⟨p.bits * 64 + n, p.used + 1, p.missing - 1, 0x80, 0xBF⟩) rest := by
  have hb : (UInt8.ofNat (n + 128)).toNat = n + 0x80 := toNat_ofNat (by omega)
  have hin : p.low ≤ UInt8.ofNat (n + 128) ∧ UInt8.ofNat (n + 128) ≤ p.high := by
    rw [UInt8.le_iff_toNat_le, UInt8.le_iff_toNat_le, hb]
    exact ⟨hlow, hhigh⟩
  rw [itemsFrom, if_pos hin]
  dsimp only
  rw [hb, Nat.add_sub_cancel]

/-! ## Characters -/

theorem itemsFrom_two {v : Nat} (h : 0x7F < v) (h' : v ≤ 0x7FF) (rest : List UInt8) :
    itemsFrom none (UInt8.ofNat (v / 64 % 32 + 192) :: UInt8.ofNat (v % 64 + 128) :: rest) =
      .char (Char.ofNat v) :: itemsFrom none rest := by
  have hb₀ : (UInt8.ofNat (v / 64 % 32 + 192)).toNat = v / 64 + 192 := by
    rw [toNat_ofNat (by omega)]
    omega
  rw [itemsFrom, lead_begun (by omega) (by omega)]
  dsimp only
  rw [hb₀, if_pos (by omega), itemsFrom_later (by omega) (Nat.le_add_left ..) (by simp; omega),
    if_pos rfl]
  congr 3
  dsimp only
  omega

/-- The second byte of three decides on the range that the first one leaves open. -/
theorem itemsFrom_three {v : Nat} (h : 0x7FF < v) (h' : v ≤ 0xFFFF)
    (hvalid : v < 0xD800 ∨ 0xDFFF < v) (rest : List UInt8) :
    itemsFrom none (UInt8.ofNat (v / 4096 % 16 + 224) :: UInt8.ofNat (v / 64 % 64 + 128) ::
      UInt8.ofNat (v % 64 + 128) :: rest) = .char (Char.ofNat v) :: itemsFrom none rest := by
  have hb₀ : (UInt8.ofNat (v / 4096 % 16 + 224)).toNat = v / 4096 + 224 := by
    rw [toNat_ofNat (by omega)]
    omega
  obtain ⟨low, high, hlead, hlow, hhigh⟩ : ∃ low high,
      lead (UInt8.ofNat (v / 4096 % 16 + 224)) = .begun ⟨v / 4096, 1, 2, low, high⟩ ∧
        low.toNat ≤ v / 64 % 64 + 128 ∧ v / 64 % 64 + 128 ≤ high.toNat := by
    rw [lead_begun (by omega) (by omega), hb₀, if_neg (by omega)]
    by_cases hfirst : v / 4096 = 0
    · rw [if_pos (by omega), hfirst]
      exact ⟨0xA0, 0xBF, rfl, by simp; omega, by simp; omega⟩
    rw [if_neg (by omega)]
    by_cases hlast : v / 4096 = 13
    · rw [if_pos (by omega), hlast]
      exact ⟨0x80, 0x9F, rfl, by simp, by simp; omega⟩
    rw [if_neg (by omega), if_pos (by omega)]
    exact ⟨0x80, 0xBF, by simp, by simp, by simp; omega⟩
  rw [itemsFrom, hlead]
  dsimp only
  rw [itemsFrom_later (by omega) hlow hhigh, if_neg (by simp),
    itemsFrom_later (by omega) (Nat.le_add_left ..) (by simp; omega), if_pos (by simp)]
  congr 3
  dsimp only
  omega

theorem itemsFrom_four {v : Nat} (h : 0xFFFF < v) (h' : v < 0x110000) (rest : List UInt8) :
    itemsFrom none (UInt8.ofNat (v / 262144 % 8 + 240) :: UInt8.ofNat (v / 4096 % 64 + 128) ::
      UInt8.ofNat (v / 64 % 64 + 128) :: UInt8.ofNat (v % 64 + 128) :: rest) =
        .char (Char.ofNat v) :: itemsFrom none rest := by
  have hb₀ : (UInt8.ofNat (v / 262144 % 8 + 240)).toNat = v / 262144 + 240 := by
    rw [toNat_ofNat (by omega)]
    omega
  obtain ⟨low, high, hlead, hlow, hhigh⟩ : ∃ low high,
      lead (UInt8.ofNat (v / 262144 % 8 + 240)) = .begun ⟨v / 262144, 1, 3, low, high⟩ ∧
        low.toNat ≤ v / 4096 % 64 + 128 ∧ v / 4096 % 64 + 128 ≤ high.toNat := by
    rw [lead_begun (by omega) (by omega), hb₀, if_neg (by omega), if_neg (by omega),
      if_neg (by omega), if_neg (by omega)]
    by_cases hfirst : v / 262144 = 0
    · rw [if_pos (by omega), hfirst]
      exact ⟨0x90, 0xBF, rfl, by simp; omega, by simp; omega⟩
    rw [if_neg (by omega)]
    by_cases hlast : v / 262144 = 4
    · rw [if_neg (by omega), hlast]
      exact ⟨0x80, 0x8F, rfl, by simp, by simp; omega⟩
    rw [if_pos (by omega)]
    exact ⟨0x80, 0xBF, by simp, by simp, by simp; omega⟩
  rw [itemsFrom, hlead]
  dsimp only
  rw [itemsFrom_later (by omega) hlow hhigh, if_neg (by simp),
    itemsFrom_later (by omega) (Nat.le_add_left ..) (by simp; omega), if_neg (by simp),
    itemsFrom_later (by omega) (Nat.le_add_left ..) (by simp; omega), if_pos (by simp)]
  congr 3
  dsimp only
  omega

/-- The bytes of a character are that character. -/
theorem itemsFrom_encodeChar (c : Char) (rest : List UInt8) :
    itemsFrom none (String.utf8EncodeChar c ++ rest) = .char c :: itemsFrom none rest := by
  have hvalid : c.val.toNat < 0xD800 ∨ (0xDFFF < c.val.toNat ∧ c.val.toNat < 0x110000) := c.valid
  have hchar : Char.ofNat c.val.toNat = c := Char.ofNat_toNat c
  generalize hv : c.val.toNat = v at hvalid hchar
  unfold String.utf8EncodeChar
  simp only [hv]
  split
  · rw [List.singleton_append, itemsFrom, lead_whole (by rw [toNat_ofNat (by omega)]; omega)]
    dsimp only
    rw [toNat_ofNat (by omega), hchar]
  split
  · rw [← hchar]
    exact itemsFrom_two (by omega) (by omega) rest
  split
  · rw [← hchar]
    exact itemsFrom_three (by omega) (by omega) (by omega) rest
  · rw [← hchar]
    exact itemsFrom_four (by omega) (by omega) rest

/-! ## Texts -/

theorem items_encode (cs : List Char) :
    items (cs.flatMap String.utf8EncodeChar) = cs.map .char := by
  unfold items
  induction cs with
  | nil => rfl
  | cons c rest ih => rw [List.flatMap_cons, itemsFrom_encodeChar, ih, List.map_cons]

theorem firstError_chars (offset : Nat) (cs : List Char) :
    firstError offset (cs.map .char) = none := by
  induction cs generalizing offset with
  | nil => rfl
  | cons c rest ih => exact ih _

/-- A text is read back from its bytes. -/
theorem decode?_encode (t : String) : decode? (encode t) = .ok t := by
  unfold decode? encode
  rw [items_encode]
  dsimp only
  rw [firstError_chars, List.map_map]
  dsimp only
  rw [show Item.toChar ∘ Item.char = id from rfl, List.map_id, String.ofList_toList]

/-! ## Only texts are read -/

theorem toNat_val_ofNat {v : Nat} (h : v.isValidChar) : (Char.ofNat v).val.toNat = v := by
  rw [Char.ofNat, dif_pos h]
  rfl

theorem encodeChar_one {b : UInt8} (h : b.toNat < 0x80) :
    String.utf8EncodeChar (Char.ofNat b.toNat) = [b] := by
  unfold String.utf8EncodeChar
  rw [toNat_val_ofNat (.inl (by omega)), if_pos (by omega), UInt8.ofNat_toNat]

theorem encodeChar_two {v : Nat} (b₀ b₁ : UInt8) (h : 0x7F < v) (h' : v ≤ 0x7FF)
    (hb₀ : b₀.toNat = v / 64 + 192) (hb₁ : b₁.toNat = v % 64 + 128) :
    String.utf8EncodeChar (Char.ofNat v) = [b₀, b₁] := by
  unfold String.utf8EncodeChar
  rw [toNat_val_ofNat (.inl (by omega)), if_neg (by omega), if_pos (by omega),
    Nat.mod_eq_of_lt (by omega : v / 64 < 32), ← hb₀, ← hb₁, UInt8.ofNat_toNat, UInt8.ofNat_toNat]

theorem encodeChar_three {v : Nat} (b₀ b₁ b₂ : UInt8) (h : 0x7FF < v) (h' : v ≤ 0xFFFF)
    (hvalid : v < 0xD800 ∨ 0xDFFF < v) (hb₀ : b₀.toNat = v / 4096 + 224)
    (hb₁ : b₁.toNat = v / 64 % 64 + 128) (hb₂ : b₂.toNat = v % 64 + 128) :
    String.utf8EncodeChar (Char.ofNat v) = [b₀, b₁, b₂] := by
  unfold String.utf8EncodeChar
  rw [toNat_val_ofNat (by unfold Nat.isValidChar; omega), if_neg (by omega), if_neg (by omega),
    if_pos (by omega), Nat.mod_eq_of_lt (by omega : v / 4096 < 16), ← hb₀, ← hb₁, ← hb₂,
    UInt8.ofNat_toNat, UInt8.ofNat_toNat, UInt8.ofNat_toNat]

theorem encodeChar_four {v : Nat} (b₀ b₁ b₂ b₃ : UInt8) (h : 0xFFFF < v) (h' : v < 0x110000)
    (hb₀ : b₀.toNat = v / 262144 + 240) (hb₁ : b₁.toNat = v / 4096 % 64 + 128)
    (hb₂ : b₂.toNat = v / 64 % 64 + 128) (hb₃ : b₃.toNat = v % 64 + 128) :
    String.utf8EncodeChar (Char.ofNat v) = [b₀, b₁, b₂, b₃] := by
  unfold String.utf8EncodeChar
  rw [toNat_val_ofNat (by unfold Nat.isValidChar; omega), if_neg (by omega), if_neg (by omega),
    if_neg (by omega), Nat.mod_eq_of_lt (by omega : v / 262144 < 8), ← hb₀, ← hb₁, ← hb₂, ← hb₃,
    UInt8.ofNat_toNat, UInt8.ofNat_toNat, UInt8.ofNat_toNat, UInt8.ofNat_toNat]

/-- Where only characters are read, a character begun goes on. -/
theorem later_of_chars {p : Partial} {bytes : List UInt8} {cs : List Char}
    (h : itemsFrom (some p) bytes = cs.map .char) :
    ∃ b rest, bytes = b :: rest ∧ p.low.toNat ≤ b.toNat ∧ b.toNat ≤ p.high.toNat ∧
      (if p.missing = 1 then
        .char (Char.ofNat (p.bits * 64 + (b.toNat - 0x80))) :: itemsFrom none rest
      else itemsFrom (some ⟨p.bits * 64 + (b.toNat - 0x80), p.used + 1, p.missing - 1, 0x80, 0xBF⟩)
        rest) = cs.map .char := by
  cases bytes with
  | nil => cases cs <;> simp [itemsFrom] at h
  | cons b rest =>
    rw [itemsFrom] at h
    split at h
    · rename_i hin
      exact ⟨b, rest, rfl, UInt8.le_iff_toNat_le.mp hin.1, UInt8.le_iff_toNat_le.mp hin.2, h⟩
    · cases cs <;> simp at h

theorem chars_cons {c : Char} {items : List Item} {cs : List Char}
    (h : .char c :: items = cs.map .char) : ∃ cs', cs = c :: cs' ∧ items = cs'.map .char := by
  cases cs with
  | nil => cases h
  | cons d cs =>
    rw [List.map_cons, List.cons.injEq, Item.char.injEq] at h
    obtain ⟨rfl, h⟩ := h
    exact ⟨cs, rfl, h⟩

theorem lt_of_lead_whole {b : UInt8} (h : lead b = .whole) : b.toNat < 0x80 := by
  have hlt : ∀ n : UInt8, b < n ↔ b.toNat < n.toNat := fun n => UInt8.lt_iff_toNat_lt
  unfold lead at h
  split at h
  · rename_i hb
    exact (hlt _).mp hb
  · repeat' split at h
    all_goals cases h

/-- What a first byte begins: how many bytes are missing, and from where to where the next one
goes. -/
theorem begun_cases {b : UInt8} {p : Partial} (h : lead b = .begun p) :
    0x80 ≤ p.low.toNat ∧ p.high.toNat ≤ 0xBF ∧
      (p.missing = 1 ∧ p.bits + 0xC0 = b.toNat ∧ 0xC2 ≤ b.toNat ∧ b.toNat < 0xE0 ∨
        p.missing = 2 ∧ p.bits + 0xE0 = b.toNat ∧ b.toNat < 0xF0 ∧
          (b.toNat = 0xE0 → 0xA0 ≤ p.low.toNat) ∧ (b.toNat = 0xED → p.high.toNat ≤ 0x9F) ∨
        p.missing = 3 ∧ p.bits + 0xF0 = b.toNat ∧ b.toNat ≤ 0xF4 ∧
          (b.toNat = 0xF0 → 0x90 ≤ p.low.toNat) ∧ (b.toNat = 0xF4 → p.high.toNat ≤ 0x8F)) := by
  have hlt : ∀ n : UInt8, b < n ↔ b.toNat < n.toNat := fun n => UInt8.lt_iff_toNat_lt
  have heq : ∀ n : UInt8, (b == n) = true ↔ b.toNat = n.toNat := fun n => by
    rw [beq_iff_eq, ← UInt8.toNat_inj]
  unfold lead at h
  simp only [hlt, heq, UInt8.reduceToNat] at h
  repeat' split at h
  all_goals first
    | exact Lead.noConfusion h
    | rw [← Lead.begun.inj h]
      simp only [UInt8.reduceToNat]
      grind

/-- A character begun, where only characters are read, is written as the bytes that were read. -/
theorem encodeChar_of_begun {b : UInt8} {p : Partial} {bytes : List UInt8} {cs : List Char}
    (hlead : lead b = .begun p) (h : itemsFrom (some p) bytes = cs.map .char) :
    ∃ c cs' rest, cs = c :: cs' ∧ b :: bytes = String.utf8EncodeChar c ++ rest ∧
      itemsFrom none rest = cs'.map .char := by
  obtain ⟨hlow, hhigh, hcases⟩ := begun_cases hlead
  obtain ⟨b₁, rest₁, rfl, hge₁, hle₁, h₁⟩ := later_of_chars h
  rcases hcases with ⟨hmissing, hbits, hfrom, hto⟩ | ⟨hmissing, hbits, hto, hfirst, hlast⟩ |
    ⟨hmissing, hbits, hto, hfirst, hlast⟩
  · rw [if_pos hmissing] at h₁
    obtain ⟨cs', rfl, hrest⟩ := chars_cons h₁
    refine ⟨_, cs', rest₁, rfl, ?_, hrest⟩
    rw [encodeChar_two b b₁ (by omega) (by omega) (by omega) (by omega)]
    rfl
  · rw [if_neg (by omega)] at h₁
    obtain ⟨b₂, rest₂, rfl, hge₂, hle₂, h₂⟩ := later_of_chars h₁
    simp only [UInt8.reduceToNat, hmissing] at hge₂ hle₂ h₂
    rw [if_pos trivial] at h₂
    obtain ⟨cs', rfl, hrest⟩ := chars_cons h₂
    refine ⟨_, cs', rest₂, rfl, ?_, hrest⟩
    rw [encodeChar_three b b₁ b₂ (by omega) (by omega) (by omega)
      (by omega) (by omega) (by omega)]
    rfl
  · rw [if_neg (by omega)] at h₁
    obtain ⟨b₂, rest₂, rfl, hge₂, hle₂, h₂⟩ := later_of_chars h₁
    simp only [UInt8.reduceToNat, hmissing] at hge₂ hle₂ h₂
    rw [if_neg (by decide)] at h₂
    obtain ⟨b₃, rest₃, rfl, hge₃, hle₃, h₃⟩ := later_of_chars h₂
    simp only [UInt8.reduceToNat] at hge₃ hle₃ h₃
    rw [if_pos trivial] at h₃
    obtain ⟨cs', rfl, hrest⟩ := chars_cons h₃
    refine ⟨_, cs', rest₃, rfl, ?_, hrest⟩
    rw [encodeChar_four b b₁ b₂ b₃ (by omega) (by omega)
      (by omega) (by omega) (by omega) (by omega)]
    rfl

/-- Bytes that are nothing but characters are the bytes of those characters. -/
theorem eq_encode_of_items {bytes : List UInt8} {cs : List Char}
    (h : items bytes = cs.map .char) : bytes = cs.flatMap String.utf8EncodeChar := by
  unfold items at h
  induction hn : bytes.length using Nat.strongRecOn generalizing bytes cs with
  | ind n ih =>
    cases bytes with
    | nil =>
      cases cs with
      | nil => rfl
      | cons c cs => cases h
    | cons b bytes =>
      rw [itemsFrom] at h
      cases hlead : lead b with
      | whole =>
        rw [hlead] at h
        obtain ⟨cs', rfl, hrest⟩ := chars_cons h
        rw [List.flatMap_cons, encodeChar_one (lt_of_lead_whole hlead), List.singleton_append,
          ← ih bytes.length (by simp [← hn]) hrest rfl]
      | stray =>
        rw [hlead] at h
        cases cs <;> simp at h
      | begun p =>
        rw [hlead] at h
        obtain ⟨c, cs', rest, rfl, hbytes, hrest⟩ := encodeChar_of_begun hlead h
        have hlen := congrArg List.length hbytes
        have hpos := c.utf8Size_pos
        rw [List.length_append, String.length_utf8EncodeChar] at hlen
        rw [List.flatMap_cons, hbytes, ← ih rest.length (by omega) hrest rfl]

theorem chars_of_firstError {offset : Nat} {read : List Item}
    (h : firstError offset read = none) : read = (read.map Item.toChar).map .char := by
  induction read generalizing offset with
  | nil => rfl
  | cons item rest ih =>
    cases item with
    | char c => rw [List.map_cons, List.map_cons, ← ih h]; rfl
    | broken n => cases h
    | cut n => cases h

/-- Bytes that are read as a text are the bytes of that text. -/
theorem encode_of_decode? {bytes : List UInt8} {t : String} (h : decode? bytes = .ok t) :
    encode t = bytes := by
  unfold decode? at h
  dsimp only at h
  split at h
  · cases h
  · rename_i hnone
    obtain rfl := Except.ok.inj h
    unfold encode
    rw [String.toList_ofList]
    exact (eq_encode_of_items (chars_of_firstError hnone)).symm

end LevelScript.Text.Utf8
