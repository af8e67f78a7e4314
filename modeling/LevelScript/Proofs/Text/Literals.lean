import LevelScript.Proofs.Text.Utf8
import LevelScript.Text.Encoding

/-!
# Literals are read back

A literal ends at its first zero byte. So a text is read back from its literal if it has no zero
character, and the encoding has all its characters.

* `Windows1252.byte?_eq_some_iff`: the table gives each byte one character, and each character of
  its own one byte.
* `Encoding.Writes`: the texts that an encoding can write.
* `Encoding.decodeLiteral_encodeLiteral`: they are read back.
-/

namespace LevelScript.Text

/-! ## Windows-1252 -/

namespace Windows1252

theorem byte?_decodeByte (b : UInt8) : byte? (decodeByte b) = some b := by
  have hall : ∀ n : Fin 256, byte? (decodeByte (UInt8.ofNat n)) = some (UInt8.ofNat n) := by
    decide +kernel
  have hb := hall ⟨b.toNat, b.toNat_lt⟩
  rwa [UInt8.ofNat_toNat] at hb

theorem decodeByte_middle : ∀ i : Fin middle.length,
    decodeByte (0x80 + i.val).toUInt8 = Char.ofNat middle[i] := by
  decide

theorem byte?_eq_some_iff {c : Char} {b : UInt8} : byte? c = some b ↔ decodeByte b = c := by
  refine ⟨fun h => ?_, fun h => h ▸ byte?_decodeByte b⟩
  unfold byte? at h
  dsimp only at h
  split at h
  · rename_i hplain
    obtain rfl := Option.some.inj h
    have hnat : c.toNat.toUInt8.toNat = c.toNat :=
      UInt8.toNat_ofNat_of_lt' (show c.toNat < 2 ^ 8 by omega)
    have hedge : ¬ (0x80 ≤ c.toNat.toUInt8 ∧ c.toNat.toUInt8 < 0xA0) := by
      rw [UInt8.le_iff_toNat_le, UInt8.lt_iff_toNat_lt, hnat]
      simp only [UInt8.reduceToNat]
      omega
    rw [decodeByte, if_neg hedge, hnat, Char.ofNat_toNat]
  · obtain ⟨i, hi, rfl⟩ := Option.map_eq_some_iff.mp h
    obtain ⟨hlt, hget, -⟩ := List.idxOf?_eq_some_iff.mp hi
    have hmiddle : middle[(⟨i, hlt⟩ : Fin middle.length)] = c.toNat := hget
    rw [decodeByte_middle ⟨i, hlt⟩, hmiddle, Char.ofNat_toNat]

end Windows1252

/-! ## Encodings -/

namespace Encoding

/-- The encoding has the character. -/
def Represents : Encoding → Char → Prop
  | .utf8, _ => True
  | .windows1252, c => ∃ b, Windows1252.decodeByte b = c

instance : (e : Encoding) → (c : Char) → Decidable (e.Represents c)
  | .utf8, _ => .isTrue trivial
  | .windows1252, c => decidable_of_iff ((Windows1252.byte? c).isSome = true) <| by
      simp only [Represents, Option.isSome_iff_exists, Windows1252.byte?_eq_some_iff]

/-- The encoding can write the text as a literal. -/
def Writes (e : Encoding) (s : String) : Prop := ∀ c ∈ s.toList, c ≠ '\x00' ∧ e.Represents c

instance (e : Encoding) (s : String) : Decidable (e.Writes s) :=
  List.decidableBAll (fun c => c ≠ '\x00' ∧ e.Represents c) s.toList

theorem zero_notMem_utf8EncodeChar {c : Char} (h : c ≠ '\x00') : 0 ∉ String.utf8EncodeChar c := by
  have hpos : c.val.toNat ≠ 0 := by
    intro hzero
    exact h (Char.ext (UInt32.toNat_inj.mp hzero))
  have hbyte : ∀ n : Nat, 0 < n → n < 256 → (0 : UInt8) ≠ UInt8.ofNat n := by
    intro n hn hlt heq
    have hnat := congrArg UInt8.toNat heq
    rw [Utf8.toNat_ofNat hlt] at hnat
    simp only [UInt8.reduceToNat] at hnat
    omega
  have hvalid : c.val.toNat < 0x110000 := by
    rcases c.valid with hlow | hhigh
    · exact Nat.lt_trans hlow (by decide)
    · exact hhigh.2
  unfold String.utf8EncodeChar
  dsimp only
  split
  · rw [List.mem_singleton]
    exact hbyte _ (by omega) (by omega)
  split
  · simp only [List.mem_cons, List.not_mem_nil, or_false, not_or]
    exact ⟨hbyte _ (by omega) (by omega), hbyte _ (by omega) (by omega)⟩
  split
  · simp only [List.mem_cons, List.not_mem_nil, or_false, not_or]
    exact ⟨hbyte _ (by omega) (by omega), hbyte _ (by omega) (by omega),
      hbyte _ (by omega) (by omega)⟩
  · simp only [List.mem_cons, List.not_mem_nil, or_false, not_or]
    exact ⟨hbyte _ (by omega) (by omega), hbyte _ (by omega) (by omega),
      hbyte _ (by omega) (by omega), hbyte _ (by omega) (by omega)⟩

/-- A character of a text has bytes other than zero. -/
theorem zero_notMem_encode {e : Encoding} {s : String} (h : e.Writes s) : 0 ∉ e.encode s := by
  cases e with
  | utf8 =>
    intro hzero
    obtain ⟨c, hc, hmem⟩ := List.mem_flatMap.mp hzero
    exact zero_notMem_utf8EncodeChar (h c hc).1 hmem
  | windows1252 =>
    intro hzero
    obtain ⟨c, hc, hmem⟩ := List.mem_flatMap.mp hzero
    obtain ⟨hne, b, hb⟩ := h c hc
    rw [Windows1252.encodeChar, Windows1252.byte?_eq_some_iff.mpr hb] at hmem
    obtain rfl := List.mem_singleton.mp hmem
    exact hne hb.symm

theorem decode_encode {e : Encoding} {s : String} (h : e.Writes s) : e.decode (e.encode s) = s := by
  cases e with
  | utf8 =>
    show Utf8.decodeLossy (Utf8.encode s) = s
    rw [Utf8.decodeLossy, Utf8.encode, Utf8.items_encode, List.map_map,
      show Utf8.Item.toChar ∘ Utf8.Item.char = id from rfl, List.map_id, String.ofList_toList]
  | windows1252 =>
    have hbytes : ∀ cs : List Char, (∀ c ∈ cs, Encoding.windows1252.Represents c) →
        (cs.flatMap Windows1252.encodeChar).map Windows1252.decodeByte = cs := by
      intro cs hcs
      induction cs with
      | nil => rfl
      | cons c rest ih =>
        obtain ⟨b, hb⟩ := hcs c List.mem_cons_self
        have hrest := ih fun c hc => hcs c (List.mem_cons_of_mem _ hc)
        rw [List.flatMap_cons, Windows1252.encodeChar, Windows1252.byte?_eq_some_iff.mpr hb,
          List.map_append, hrest, List.map_singleton, hb, List.singleton_append]
    show String.ofList ((s.toList.flatMap Windows1252.encodeChar).map Windows1252.decodeByte) = s
    rw [hbytes s.toList fun c hc => (h c hc).2, String.ofList_toList]

/-- **A text is read back from its literal.** -/
theorem decodeLiteral_encodeLiteral {e : Encoding} {s : String} (h : e.Writes s) :
    e.decodeLiteral (e.encodeLiteral s) = s := by
  have hwhole : ∀ b ∈ e.encode s, (b != 0) = true := by
    intro b hb
    exact bne_iff_ne.mpr fun hzero => zero_notMem_encode h (hzero ▸ hb)
  rw [decodeLiteral, encodeLiteral, List.takeWhile_append_of_pos hwhole,
    show List.takeWhile (· != 0) [(0 : UInt8)] = [] from rfl, List.append_nil, decode_encode h]

theorem map_decodeLiteral_encodeLiteral {e : Encoding} {texts : List String}
    (h : ∀ s ∈ texts, e.Writes s) :
    texts.map (fun s => e.decodeLiteral (e.encodeLiteral s)) = texts :=
  (List.map_congr_left fun s hs => decodeLiteral_encodeLiteral (h s hs)).trans (List.map_id _)

end Encoding

end LevelScript.Text
