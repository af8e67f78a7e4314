import LevelScript.Machine.Instance
import LevelScript.Opcode.Basic

/-!
# Arithmetic

Values are words of 32 bits. Sums, differences and products wrap around, division goes toward
zero, shifts take their amount modulo 32, and comparisons give 1 or 0. A fixed-point number
counts parts of 1/65536; an angle is a part of a full turn.
-/

namespace LevelScript

/-- 1 for true and 0 for false. -/
def flag (b : Bool) : Int32 := if b then 1 else 0

/-- The product of two fixed-point numbers. -/
def fixedMul (a b : Int32) : Int32 :=
  ((a.toInt64 * b.toInt64) >>> 16).toInt32

/-- The quotient of two fixed-point numbers; the divisor is not zero. -/
def fixedDiv (a b : Int32) : Int32 :=
  ((a.toInt64 <<< 16) / b.toInt64).toInt32

def Binary.apply : Binary → Int32 → Int32 → Int32
  | .add, a, b => a + b
  | .subtract, a, b => a - b
  | .multiply, a, b => a * b
  | .fixedMul, a, b => LevelScript.fixedMul a b
  | .eq, a, b => flag (a == b)
  | .ne, a, b => flag (a != b)
  | .lt, a, b => flag (a < b)
  | .gt, a, b => flag (b < a)
  | .le, a, b => flag (a ≤ b)
  | .ge, a, b => flag (b ≤ a)
  | .andLogical, a, b => flag (a != 0 && b != 0)
  | .orLogical, a, b => flag (a != 0 || b != 0)
  | .andBitwise, a, b => a &&& b
  | .orBitwise, a, b => a ||| b
  | .eorBitwise, a, b => a ^^^ b
  | .lShift, a, b => a <<< b
  | .rShift, a, b => a >>> b

/-- The value for a divisor that is not zero. -/
def Division.apply : Division → Int32 → Int32 → Int32
  | .divide, a, b => a / b
  | .modulus, a, b => a % b
  | .fixedDiv, a, b => LevelScript.fixedDiv a b

/-- What a stored value becomes; nothing when a divisor is zero. -/
def Update.updated? : Update → Int32 → Int32 → Option Int32
  | .assign, _, v => some v
  | .add, x, v => some (x + v)
  | .sub, x, v => some (x - v)
  | .mul, x, v => some (x * v)
  | .div, x, v => if v == 0 then none else some (x / v)
  | .mod, x, v => if v == 0 then none else some (x % v)
  | .inc, x, _ => some (x + 1)
  | .dec, x, _ => some (x - 1)

/-! ## Zero divisors -/

/-- The status that a zero divisor leads to. -/
def Division.zeroStatus : Division → Status
  | .modulus => .modulusByZero
  | _ => .divideByZero

/-- The same for an update. -/
def Update.zeroStatus : Update → Status
  | .mod => .modulusByZero
  | _ => .divideByZero

/-! ## Angles -/

namespace Angle

def fullTurn : Float := 6.283185307179586

/-- The angle of a fixed-point part of a turn; whole turns do not count. -/
def radians (v : Int32) : Float :=
  Float.ofNat (v.toUInt32 &&& 0xFFFF).toNat / 65536.0 * fullTurn

/-- The nearest fixed-point number. -/
def toFixed (x : Float) : Int32 := (x * 65536.0).round.toInt32

def sin (v : Int32) : Int32 := toFixed (radians v).sin

def cos (v : Int32) : Int32 := toFixed (radians v).cos

/-- The direction of a vector, as a part of a turn. -/
def ofVector (x y : Int32) : Int32 :=
  let a := Float.atan2 (Float.ofInt y.toInt) (Float.ofInt x.toInt)
  let a := if a < 0.0 then a + fullTurn else a
  (a / fullTurn * 65536.0).round.toInt32 &&& 0xFFFF

end Angle

end LevelScript
