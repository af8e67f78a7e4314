import LevelScript.Text.Unprintable

/-!
# Numbers and texts on display

Numbers are shown in hexadecimal or as fixed-point numbers, texts between double quotes.
-/

namespace LevelScript.Text

/-! ## Hexadecimal numbers

Offsets are written with capital digits, digests with small ones. -/

/-- The digit of `d < 16`, with `ten` standing for 10. -/
def hexDigit (ten : Char) (d : Nat) : Char :=
  if d < 10 then Char.ofNat ('0'.toNat + d) else Char.ofNat (ten.toNat + (d - 10))

/-- Digits of `n` in base 16, at least `width` of them. -/
def hexDigits (ten : Char) (width n : Nat) : String :=
  let digits := (Nat.toDigits 16 n).map fun c =>
    if c.isDigit then c else hexDigit ten (c.toNat - 'a'.toNat + 10)
  String.ofList (List.replicate (width - digits.length) '0' ++ digits)

/-- Capital digits without padding. -/
def upperHex (n : Nat) : String := hexDigits 'A' 0 n

/-- Capital digits, padded with zeros to `width`. -/
def upperHexPadded (width n : Nat) : String := hexDigits 'A' width n

/-- Two small digits for each byte. -/
def lowerHexBytes (bytes : List UInt8) : String :=
  String.join (bytes.map fun b => hexDigits 'a' 2 b.toNat)

/-! ## Fixed-point numbers

A fixed-point number counts parts of 1/65536. It is shown with at most six decimal places, a
half going to the even neighbour, and without zeros at the end. -/

/-- The quotient to the nearest number; a half goes to the even one. -/
def roundHalfEven (n d : Nat) : Nat :=
  let q := n / d
  let r := n % d
  if 2 * r < d then q
  else if d < 2 * r then q + 1
  else q + q % 2

/-- Digits of a number, zeros before them up to a width. -/
def paddedDigits (width n : Nat) : List Char :=
  let digits := (toString n).toList
  List.replicate (width - digits.length) '0' ++ digits

/-- The list without zeros at its end. -/
def dropTrailingZeros (digits : List Char) : List Char :=
  (digits.reverse.dropWhile (· == '0')).reverse

def fixedPoint (v : Int32) : String :=
  let millionths := roundHalfEven (v.toInt.natAbs * 1000000) 65536
  let places := dropTrailingZeros (paddedDigits 6 (millionths % 1000000))
  let sign := if v < 0 then "-" else ""
  let whole := toString (millionths / 1000000)
  if places.isEmpty then sign ++ whole else sign ++ whole ++ "." ++ String.ofList places

/-! ## Quoted text

Quotes and backslashes get a backslash, the common controls their letter, and every other
character that cannot be shown its number. -/

/-- The number of a character in the form `\u\x7b...\x7d`. -/
def escapedNumber (c : Char) : String :=
  "\\u\x7b" ++ hexDigits 'a' 0 c.toNat ++ "\x7d"

def quotedChar (c : Char) : String :=
  if c == '"' then "\\\""
  else if c == '\\' then "\\\\"
  else if c == '\n' then "\\n"
  else if c == '\r' then "\\r"
  else if c == '\t' then "\\t"
  else if c.toNat == 0 then "\\0"
  else if isUnprintable c then escapedNumber c
  else c.toString

def quoted (text : String) : String :=
  "\"" ++ String.join (text.toList.map quotedChar) ++ "\""

end LevelScript.Text
