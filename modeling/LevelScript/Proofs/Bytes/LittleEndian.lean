import Mathlib.Algebra.Group.Nat.Defs
import Mathlib.Tactic.Common
import LevelScript.Bytes.LittleEndian

/-!
# Words are read back

Bit by bit: each bit of a word is in one of its bytes, and comes back from there. And each byte is
part of the word that is read, so it is written again.

* `ofLe16_le16`, `ofLe32_le32`, `ofLe64_le64`: words that are written and read.
* `le16_ofLe16`, `le32_ofLe32`, `le64_ofLe64`: bytes that are read and written.
-/

namespace LevelScript.Bytes

/-- A word of 32 bits from the bits of its bytes. -/
theorem ofLe32_le32 (v : UInt32) :
    ofLe32 v.toUInt8 (v >>> 8).toUInt8 (v >>> 16).toUInt8 (v >>> 24).toUInt8 = v := by
  apply UInt32.toBitVec_inj.mp
  have h₈ : UInt32.toBitVec 8 % 32 = 8#32 := by decide
  have h₁₆ : UInt32.toBitVec 16 % 32 = 16#32 := by decide
  have h₂₄ : UInt32.toBitVec 24 % 32 = 24#32 := by decide
  simp only [ofLe32, UInt32.toBitVec_or, UInt32.toBitVec_shiftLeft, UInt8.toBitVec_toUInt32,
    UInt32.toBitVec_toUInt8, UInt32.toBitVec_shiftRight, h₈, h₁₆, h₂₄]
  generalize v.toBitVec = x
  ext i hi
  simp only [BitVec.shiftLeft_eq', BitVec.ushiftRight_eq', BitVec.getElem_or,
    BitVec.getElem_shiftLeft, BitVec.getElem_setWidth, BitVec.getLsbD_setWidth,
    BitVec.getLsbD_ushiftRight, BitVec.toNat_ofNat]
  grind

theorem ofLe16_le16 (v : UInt16) : ofLe16 v.toUInt8 (v >>> 8).toUInt8 = v := by
  apply UInt16.toBitVec_inj.mp
  have h₈ : UInt16.toBitVec 8 % 16 = 8#16 := by decide
  simp only [ofLe16, UInt16.toBitVec_or, UInt16.toBitVec_shiftLeft, UInt8.toBitVec_toUInt16,
    UInt16.toBitVec_toUInt8, UInt16.toBitVec_shiftRight, h₈]
  generalize v.toBitVec = x
  ext i hi
  simp only [BitVec.shiftLeft_eq', BitVec.ushiftRight_eq', BitVec.getElem_or,
    BitVec.getElem_shiftLeft, BitVec.getElem_setWidth, BitVec.getLsbD_setWidth,
    BitVec.getLsbD_ushiftRight, BitVec.toNat_ofNat]
  grind

/-! ## Words of 64 bits -/

/-- A word of 64 bits from its two halves. -/
theorem ofHalves (v : UInt64) :
    v.toUInt32.toUInt64 ||| ((v >>> 32).toUInt32.toUInt64 <<< 32) = v := by
  apply UInt64.toNat_inj.mp
  have hv := v.toNat_lt
  have h₃₂ : (32 : UInt64).toNat % 64 = 32 := by simp
  have hlow : v.toUInt32.toUInt64.toNat = v.toNat % 2 ^ 32 := by
    rw [UInt32.toNat_toUInt64, UInt64.toNat_toUInt32]
  have hhigh : ((v >>> 32).toUInt32.toUInt64 <<< 32).toNat = (v.toNat / 2 ^ 32) <<< 32 := by
    rw [UInt64.toNat_shiftLeft, UInt32.toNat_toUInt64, UInt64.toNat_toUInt32,
      UInt64.toNat_shiftRight, h₃₂, Nat.shiftRight_eq_div_pow, Nat.shiftLeft_eq, Nat.shiftLeft_eq]
    omega
  rw [UInt64.toNat_or, hhigh, hlow, Nat.or_comm,
    ← Nat.shiftLeft_add_eq_or_of_lt (Nat.mod_lt _ (by decide)), Nat.shiftLeft_eq]
  omega

/-- A byte of a half is a byte of the whole. -/
theorem toUInt8_half {v : UInt64} {h : UInt32} {d : Nat}
    (hh : h.toNat = v.toNat / 2 ^ d % 2 ^ 32) (n : UInt32) (m : UInt64) (hn : n.toNat + 8 ≤ 32)
    (hm : m.toNat = d + n.toNat) (hd : d ≤ 32) : (h >>> n).toUInt8 = (v >>> m).toUInt8 := by
  apply UInt8.toNat_inj.mp
  rw [UInt32.toNat_toUInt8, UInt64.toNat_toUInt8, UInt32.toNat_shiftRight, UInt64.toNat_shiftRight,
    Nat.mod_eq_of_lt (by omega : n.toNat < 32), Nat.mod_eq_of_lt (by omega : m.toNat < 64), hm, hh,
    Nat.shiftRight_eq_div_pow, Nat.shiftRight_eq_div_pow, Nat.pow_add, ← Nat.div_div_eq_div_mul]
  generalize v.toNat / 2 ^ d = x
  -- Eight bits from place `n` on are below place 32.
  obtain ⟨e, he⟩ := Nat.exists_eq_add_of_le hn
  have hpow : (2 : Nat) ^ 32 = 2 ^ n.toNat * (2 ^ 8 * 2 ^ e) := by
    rw [← Nat.pow_add, ← Nat.pow_add, he]
    congr 1
    omega
  rw [hpow, Nat.mod_mul_right_div_self, Nat.mod_mul_right_mod]

theorem ofLe64_le64 (v : UInt64) :
    ofLe64 v.toUInt8 (v >>> 8).toUInt8 (v >>> 16).toUInt8 (v >>> 24).toUInt8 (v >>> 32).toUInt8
      (v >>> 40).toUInt8 (v >>> 48).toUInt8 (v >>> 56).toUInt8 = v := by
  have hlow : v.toUInt32.toNat = v.toNat / 2 ^ 0 % 2 ^ 32 := by
    rw [UInt64.toNat_toUInt32, Nat.pow_zero, Nat.div_one]
  have hhigh : (v >>> 32).toUInt32.toNat = v.toNat / 2 ^ 32 % 2 ^ 32 := by
    rw [UInt64.toNat_toUInt32, UInt64.toNat_shiftRight, show (32 : UInt64).toNat % 64 = 32 by simp,
      Nat.shiftRight_eq_div_pow]
  have h₁ := ofLe32_le32 v.toUInt32
  have h₂ := ofLe32_le32 (v >>> 32).toUInt32
  rw [toUInt8_half hlow 8 8 (by simp) (by simp) (by simp),
    toUInt8_half hlow 16 16 (by simp) (by simp) (by simp),
    toUInt8_half hlow 24 24 (by simp) (by simp) (by simp)] at h₁
  rw [toUInt8_half hhigh 8 40 (by simp) (by simp) (by simp),
    toUInt8_half hhigh 16 48 (by simp) (by simp) (by simp),
    toUInt8_half hhigh 24 56 (by simp) (by simp) (by simp)] at h₂
  have h₁' : v.toUInt32.toUInt8 = v.toUInt8 := by simp
  have h₂' : (v >>> 32).toUInt32.toUInt8 = (v >>> 32).toUInt8 := by simp
  rw [h₁'] at h₁
  rw [h₂'] at h₂
  rw [ofLe64, h₁, h₂]
  exact ofHalves v

/-! ## Bytes are written again -/

theorem le16_ofLe16 (b₀ b₁ : UInt8) : le16 (ofLe16 b₀ b₁) = [b₀, b₁] := by
  have h₈ : UInt16.toBitVec 8 % 16 = 8#16 := by decide
  simp only [le16, ofLe16, List.cons.injEq, and_true, ← UInt8.toBitVec_inj,
    UInt16.toBitVec_toUInt8, UInt16.toBitVec_shiftRight, UInt16.toBitVec_or,
    UInt16.toBitVec_shiftLeft, UInt8.toBitVec_toUInt16, h₈]
  generalize b₀.toBitVec = x₀
  generalize b₁.toBitVec = x₁
  constructor
  all_goals
    ext i hi
    simp only [BitVec.shiftLeft_eq', BitVec.ushiftRight_eq', BitVec.getElem_setWidth,
      BitVec.getLsbD_or, BitVec.getLsbD_shiftLeft, BitVec.getLsbD_setWidth,
      BitVec.getLsbD_ushiftRight, BitVec.toNat_ofNat]
    grind

theorem le32_ofLe32 (b₀ b₁ b₂ b₃ : UInt8) :
    le32 (ofLe32 b₀ b₁ b₂ b₃) = [b₀, b₁, b₂, b₃] := by
  have h₈ : UInt32.toBitVec 8 % 32 = 8#32 := by decide
  have h₁₆ : UInt32.toBitVec 16 % 32 = 16#32 := by decide
  have h₂₄ : UInt32.toBitVec 24 % 32 = 24#32 := by decide
  simp only [le32, ofLe32, List.cons.injEq, and_true, ← UInt8.toBitVec_inj,
    UInt32.toBitVec_toUInt8, UInt32.toBitVec_shiftRight, UInt32.toBitVec_or,
    UInt32.toBitVec_shiftLeft, UInt8.toBitVec_toUInt32, h₈, h₁₆, h₂₄]
  generalize b₀.toBitVec = x₀
  generalize b₁.toBitVec = x₁
  generalize b₂.toBitVec = x₂
  generalize b₃.toBitVec = x₃
  refine ⟨?_, ?_, ?_, ?_⟩
  all_goals
    ext i hi
    simp only [BitVec.shiftLeft_eq', BitVec.ushiftRight_eq', BitVec.getElem_setWidth,
      BitVec.getLsbD_or, BitVec.getLsbD_shiftLeft, BitVec.getLsbD_setWidth,
      BitVec.getLsbD_ushiftRight, BitVec.toNat_ofNat]
    grind

/-- The bytes of a word of 64 bits are those of its halves. -/
theorem le64_halves (low high : UInt32) :
    le64 (low.toUInt64 ||| (high.toUInt64 <<< 32)) = le32 low ++ le32 high := by
  have h₃₂ : (32 : UInt64).toNat % 64 = 32 := by simp
  have hlt := low.toNat_lt
  have hlt' := high.toNat_lt
  have hv : (low.toUInt64 ||| (high.toUInt64 <<< 32)).toNat = high.toNat * 2 ^ 32 + low.toNat := by
    rw [UInt64.toNat_or, UInt64.toNat_shiftLeft, UInt32.toNat_toUInt64, UInt32.toNat_toUInt64, h₃₂,
      Nat.or_comm, Nat.mod_eq_of_lt (by rw [Nat.shiftLeft_eq]; omega),
      ← Nat.shiftLeft_add_eq_or_of_lt hlt, Nat.shiftLeft_eq]
  generalize low.toUInt64 ||| (high.toUInt64 <<< 32) = v at hv
  have hlow : low.toNat = v.toNat / 2 ^ 0 % 2 ^ 32 := by omega
  have hhigh : high.toNat = v.toNat / 2 ^ 32 % 2 ^ 32 := by omega
  have hfirst : low.toUInt8 = v.toUInt8 := by
    apply UInt8.toNat_inj.mp
    rw [UInt32.toNat_toUInt8, UInt64.toNat_toUInt8]
    omega
  have hfifth : high.toUInt8 = (v >>> 32).toUInt8 := by
    apply UInt8.toNat_inj.mp
    rw [UInt32.toNat_toUInt8, UInt64.toNat_toUInt8, UInt64.toNat_shiftRight, h₃₂,
      Nat.shiftRight_eq_div_pow]
    omega
  rw [le32, le32, hfirst, hfifth,
    toUInt8_half hlow 8 8 (by simp) (by simp) (by simp),
    toUInt8_half hlow 16 16 (by simp) (by simp) (by simp),
    toUInt8_half hlow 24 24 (by simp) (by simp) (by simp),
    toUInt8_half hhigh 8 40 (by simp) (by simp) (by simp),
    toUInt8_half hhigh 16 48 (by simp) (by simp) (by simp),
    toUInt8_half hhigh 24 56 (by simp) (by simp) (by simp)]
  rfl

theorem le64_ofLe64 (b₀ b₁ b₂ b₃ b₄ b₅ b₆ b₇ : UInt8) :
    le64 (ofLe64 b₀ b₁ b₂ b₃ b₄ b₅ b₆ b₇) = [b₀, b₁, b₂, b₃, b₄, b₅, b₆, b₇] := by
  rw [ofLe64, le64_halves, le32_ofLe32, le32_ofLe32]
  rfl

end LevelScript.Bytes
