/-!
# Little-endian words

Images and snapshots store their numbers with the low byte first. `le16`, `le32` and `le64`
write a word as bytes, `ofLe16`, `ofLe32` and `ofLe64` read it back.
-/

namespace LevelScript.Bytes

/-! ## Writing -/

def le16 (v : UInt16) : List UInt8 :=
  [v.toUInt8, (v >>> 8).toUInt8]

def le32 (v : UInt32) : List UInt8 :=
  [v.toUInt8, (v >>> 8).toUInt8, (v >>> 16).toUInt8, (v >>> 24).toUInt8]

def le64 (v : UInt64) : List UInt8 :=
  [v.toUInt8, (v >>> 8).toUInt8, (v >>> 16).toUInt8, (v >>> 24).toUInt8,
    (v >>> 32).toUInt8, (v >>> 40).toUInt8, (v >>> 48).toUInt8, (v >>> 56).toUInt8]

/-! ## Reading -/

def ofLe16 (b₀ b₁ : UInt8) : UInt16 :=
  b₀.toUInt16 ||| (b₁.toUInt16 <<< 8)

def ofLe32 (b₀ b₁ b₂ b₃ : UInt8) : UInt32 :=
  b₀.toUInt32 ||| (b₁.toUInt32 <<< 8) ||| (b₂.toUInt32 <<< 16) ||| (b₃.toUInt32 <<< 24)

def ofLe64 (b₀ b₁ b₂ b₃ b₄ b₅ b₆ b₇ : UInt8) : UInt64 :=
  (ofLe32 b₀ b₁ b₂ b₃).toUInt64 ||| ((ofLe32 b₄ b₅ b₆ b₇).toUInt64 <<< 32)

/-! ## Lengths -/

@[simp] theorem length_le16 (v : UInt16) : (le16 v).length = 2 := rfl

@[simp] theorem length_le32 (v : UInt32) : (le32 v).length = 4 := rfl

@[simp] theorem length_le64 (v : UInt64) : (le64 v).length = 8 := rfl

end LevelScript.Bytes
