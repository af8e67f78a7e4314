/-!
# Numbers in text

A natural number is one or more decimal digits, with a plus sign before them or not. Nothing else
is read: no blanks, no separators, no digits of other scripts. A decimal number is one with or
without a point and an exponent; `Decimal.isFinite` says whether it is in the range of
double-precision numbers.
-/

namespace LevelScript.Text

/-! ## Blanks

Characters that only separate: they are cut off at both ends of a setting's value. -/

def isBlank (c : Char) : Bool :=
  let n := c.toNat
  (9 ≤ n && n ≤ 13) || n == 0x20 || n == 0x85 || n == 0xA0 || n == 0x1680 ||
    (0x2000 ≤ n && n ≤ 0x200A) || n == 0x2028 || n == 0x2029 || n == 0x202F || n == 0x205F ||
    n == 0x3000

/-- The text without blanks at its ends. -/
def trimBlank (s : String) : String :=
  String.ofList (((s.toList.dropWhile isBlank).reverse.dropWhile isBlank).reverse)

/-! ## Natural numbers -/

def isDecimalDigit (c : Char) : Bool := '0' ≤ c && c ≤ '9'

/-- The value of digits, most significant first. -/
def digitsValue (digits : List Char) : Nat :=
  digits.foldl (fun n c => n * 10 + (c.toNat - '0'.toNat)) 0

def digits? (chars : List Char) : Option Nat :=
  if chars.isEmpty || !chars.all isDecimalDigit then none else some (digitsValue chars)

/-- Reads a number below a bound. -/
def natural? (bound : Nat) (s : String) : Option Nat :=
  let read := match s.toList with
    | '+' :: rest => digits? rest
    | chars => digits? chars
  read.filter (· < bound)

/-- Reads a number with a sign or none, from `-bound` up to `bound - 1`. -/
def integer? (bound : Nat) (s : String) : Option Int :=
  match s.toList with
  | '-' :: rest => ((digits? rest).filter (· ≤ bound)).map fun n => -(n : Int)
  | _ => (natural? bound s).map fun n => (n : Int)

/-! ## Decimal numbers -/

/-- The number `digits * 10 ^ exponent`, whatever its sign. -/
structure Decimal where
  digits : Nat
  exponent : Int
  deriving DecidableEq, Repr

namespace Decimal

/-- The least number that rounds to infinity: half a unit above the largest double. -/
def overflow : Nat := 1 <<< 1024 - 1 <<< 970

/-- Whether the number rounds to a finite double. -/
def isFinite (d : Decimal) : Bool :=
  let size : Int := (Nat.toDigits 10 d.digits).length + d.exponent
  if d.digits = 0 || size < 300 then true
  else if 320 < size then false
  else if 0 ≤ d.exponent then d.digits * Nat.pow 10 d.exponent.toNat < overflow
  else d.digits < overflow * Nat.pow 10 (-d.exponent).toNat

/-- The exponent after its letter, with a sign or none. -/
def exponent? (chars : List Char) : Option Int :=
  match chars with
  | '-' :: rest => (digits? rest).map fun n => -(n : Int)
  | '+' :: rest => (digits? rest).map fun n => (n : Int)
  | rest => (digits? rest).map fun n => (n : Int)

/-- A number from its digits before and after the point, at least one of them, and its
exponent. -/
def assemble? (whole fraction : List Char) (exponent : Int) : Option Decimal :=
  (digits? (whole ++ fraction)).map fun n => ⟨n, exponent - fraction.length⟩

/-- Reads a number without a sign. -/
def read? (chars : List Char) : Option Decimal :=
  let isMark (c : Char) : Bool := c == 'e' || c == 'E'
  let mantissa := chars.takeWhile (!isMark ·)
  let whole := mantissa.takeWhile (· != '.')
  let fraction := (mantissa.dropWhile (· != '.')).drop 1
  match chars.dropWhile (!isMark ·) with
  | [] => assemble? whole fraction 0
  | _ :: rest => (exponent? rest).bind (assemble? whole fraction ·)

end Decimal

end LevelScript.Text
