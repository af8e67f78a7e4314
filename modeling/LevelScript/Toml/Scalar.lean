import LevelScript.Document.Basic
import LevelScript.Text.Numeral

/-!
# TOML scalars

Texts, numbers, dates and the two truth values of a TOML file. Numbers may have single
underscores between digits. Dates and numbers that are no integers are kept as they are written.
-/

namespace LevelScript.Toml

/-- Reads something from the start of the characters and gives what follows. -/
abbrev Reader (α : Type) := List Char → Option (α × List Char)

/-! ## Characters -/

def isWhite (c : Char) : Bool := c == ' ' || c == '\t'

/-- Characters that may stand in a text or a comment. -/
def isVisible (c : Char) : Bool :=
  c == '\t' || (0x20 ≤ c.toNat && c.toNat ≤ 0x7E) || 0x80 ≤ c.toNat

def isBareKeyChar (c : Char) : Bool := c.isAlphanum || c == '_' || c == '-'

/-- What is left after the end of a line, which the end of the file is too. -/
def lineEnd? : List Char → Option (List Char)
  | [] => some []
  | '\n' :: rest | '\r' :: '\n' :: rest => some rest
  | _ => none

/-! ## Texts -/

def hexDigit? (c : Char) : Option Nat :=
  if c.isDigit then some (c.toNat - '0'.toNat)
  else if 'a' ≤ c && c ≤ 'f' then some (c.toNat - 'a'.toNat + 10)
  else if 'A' ≤ c && c ≤ 'F' then some (c.toNat - 'A'.toNat + 10)
  else none

/-- The character with a number in hexadecimal, if there is one. -/
def hexChar? (digits : List Char) : Option Char := do
  let n ← digits.foldlM (fun n c => (hexDigit? c).map (n * 16 + ·)) 0
  if Nat.isValidChar n then some (Char.ofNat n) else none

def escaped? : Char → Option Char
  | 'b' => some '\x08'
  | 't' => some '\t'
  | 'n' => some '\n'
  | 'f' => some '\x0C'
  | 'r' => some '\r'
  | '"' => some '"'
  | '\\' => some '\\'
  | _ => none

/-- A text in double quotes, after the first one. -/
def basicText (read : List Char) : Reader String
  | '"' :: rest => some (String.ofList read.reverse, rest)
  | '\\' :: 'u' :: a :: b :: c :: d :: rest =>
    (hexChar? [a, b, c, d]).bind fun ch => basicText (ch :: read) rest
  | '\\' :: 'U' :: a :: b :: c :: d :: e :: f :: g :: h :: rest =>
    (hexChar? [a, b, c, d, e, f, g, h]).bind fun ch => basicText (ch :: read) rest
  | '\\' :: e :: rest => (escaped? e).bind fun ch => basicText (ch :: read) rest
  | c :: rest => if isVisible c then basicText (c :: read) rest else none
  | [] => none

/-- A text in single quotes, after the first one. -/
def literalText (read : List Char) : Reader String
  | '\'' :: rest => some (String.ofList read.reverse, rest)
  | c :: rest => if isVisible c then literalText (c :: read) rest else none
  | [] => none

/-- The end of a text after three quotes: up to two quotes before them belong to the text. -/
def closeLong (quote : Char) (read rest : List Char) : String × List Char :=
  let extra := (rest.take 2).takeWhile (· == quote)
  (String.ofList (read.reverse ++ extra), rest.drop extra.length)

/-- Whether only blanks are left on the line. -/
def endsLine (s : List Char) : Bool :=
  match s.dropWhile isWhite with
  | '\n' :: _ | '\r' :: '\n' :: _ => true
  | _ => false

/-- A text between triple double quotes. After a backslash at the end of a line, blanks and line
ends are skipped. -/
def longBasicText (skipping : Bool) (read : List Char) : Reader String
  | '"' :: '"' :: '"' :: rest => some (closeLong '"' read rest)
  | '\\' :: 'u' :: a :: b :: c :: d :: rest =>
    (hexChar? [a, b, c, d]).bind fun ch => longBasicText false (ch :: read) rest
  | '\\' :: 'U' :: a :: b :: c :: d :: e :: f :: g :: h :: rest =>
    (hexChar? [a, b, c, d, e, f, g, h]).bind fun ch => longBasicText false (ch :: read) rest
  | '\\' :: e :: rest =>
    if endsLine (e :: rest) then longBasicText true read rest
    else (escaped? e).bind fun ch => longBasicText false (ch :: read) rest
  | '\r' :: '\n' :: rest | '\n' :: rest =>
    longBasicText skipping (if skipping then read else '\n' :: read) rest
  | c :: rest =>
    if skipping && isWhite c then longBasicText true read rest
    else if isVisible c then longBasicText false (c :: read) rest
    else none
  | [] => none

/-- A text between triple single quotes. -/
def longLiteralText (read : List Char) : Reader String
  | '\'' :: '\'' :: '\'' :: rest => some (closeLong '\'' read rest)
  | '\r' :: '\n' :: rest | '\n' :: rest => longLiteralText ('\n' :: read) rest
  | c :: rest => if isVisible c then longLiteralText (c :: read) rest else none
  | [] => none

/-- A line end directly after opening quotes does not belong to the text. -/
def afterOpening (s : List Char) : List Char :=
  if s.isEmpty then s else (lineEnd? s).getD s

/-- A text in any of the four kinds of quotes. -/
def text? : Reader String
  | '"' :: '"' :: '"' :: rest => longBasicText false [] (afterOpening rest)
  | '\'' :: '\'' :: '\'' :: rest => longLiteralText [] (afterOpening rest)
  | '"' :: rest => basicText [] rest
  | '\'' :: rest => literalText [] rest
  | _ => none

/-! ## Numbers -/

/-- Digits without the underscores between them. -/
def digitRun? (isDigit : Char → Bool) (s : List Char) : Option (List Char) :=
  let parts := s.splitOn '_'
  if parts.all fun p => !p.isEmpty && p.all isDigit then some parts.flatten else none

def decimalRun? (s : List Char) : Option (List Char) := digitRun? Text.isDecimalDigit s

/-- Digits that do not start with a needless zero. -/
def wholeRun? (s : List Char) : Option (List Char) :=
  (decimalRun? s).filter fun ds => ds.length = 1 || ds.head? != some '0'

/-- The sign of a number, if it has one, and the rest. -/
def signed : List Char → Option Char × List Char
  | '+' :: rest => (some '+', rest)
  | '-' :: rest => (some '-', rest)
  | s => (none, s)

/-- Whole numbers have 64 bits with a sign, so they stay below this in either direction. -/
def signedBound : Nat := 0x8000000000000000

def basedInteger? (base : Nat) (isDigit : Char → Bool) (s : List Char) : Option Int := do
  let ds ← digitRun? isDigit s
  let n ← ds.foldlM (fun n c => (hexDigit? c).map (n * base + ·)) 0
  if n < signedBound then some n else none

/-- A whole number of 64 bits. -/
def integer? (s : List Char) : Option Int :=
  match s with
  | '0' :: 'x' :: ds => basedInteger? 16 (fun c => (hexDigit? c).isSome) ds
  | '0' :: 'o' :: ds => basedInteger? 8 (fun c => '0' ≤ c && c ≤ '7') ds
  | '0' :: 'b' :: ds => basedInteger? 2 (fun c => c == '0' || c == '1') ds
  | _ =>
    let (sign, ds) := signed s
    ((wholeRun? ds).bind Text.digits?).bind fun n =>
      if sign == some '-' then if n ≤ signedBound then some (-(n : Int)) else none
      else if n < signedBound then some (n : Int) else none

/-- Whether a number has a point or an exponent, as it should. A positive one may not be too
large; a negative one may be as small as it likes. -/
def isFloat (s : List Char) : Bool :=
  let (sign, body) := signed s
  if body == "inf".toList || body == "nan".toList then true
  else
    let isMark (c : Char) : Bool := c == 'e' || c == 'E'
    let mantissa := body.takeWhile (!isMark ·)
    let exponent := body.dropWhile (!isMark ·)
    let whole := wholeRun? (mantissa.takeWhile (· != '.'))
    let fraction := match mantissa.dropWhile (· != '.') with
      | [] => if exponent.isEmpty then none else some []
      | _ :: ds => decimalRun? ds
    let power := match exponent with
      | [] => some 0
      | _ :: e =>
        let (sign, ds) := signed e
        ((decimalRun? ds).bind Text.digits?).map fun n =>
          if sign == some '-' then -(n : Int) else (n : Int)
    match whole, fraction, power with
    | some w, some f, some p =>
      match Text.Decimal.assemble? w f p with
      | some d => sign == some '-' || d.isFinite
      | none => false
    | _, _, _ => false

/-! ## Dates -/

/-- Two digits with a value in a range. -/
def twoDigits (low high : Nat) : Reader Nat
  | a :: b :: rest => do
    let n ← Text.digits? [a, b]
    if low ≤ n ∧ n ≤ high then some (n, rest) else none
  | _ => none

def daysOfMonth (year month : Nat) : Nat :=
  if month = 2 then
    if year % 4 = 0 ∧ (year % 100 ≠ 0 ∨ year % 400 = 0) then 29 else 28
  else if month = 4 ∨ month = 6 ∨ month = 9 ∨ month = 11 then 30
  else 31

/-- What follows a date. -/
def afterDate? : List Char → Option (List Char)
  | a :: b :: c :: d :: '-' :: rest => do
    let year ← Text.digits? [a, b, c, d]
    let (month, rest) ← twoDigits 1 12 rest
    let '-' :: rest := rest | none
    let (_, rest) ← twoDigits 1 (daysOfMonth year month) rest
    some rest
  | _ => none

/-- What follows a time of day. -/
def afterTime? (s : List Char) : Option (List Char) := do
  let (_, s) ← twoDigits 0 23 s
  let ':' :: s := s | none
  let (_, s) ← twoDigits 0 59 s
  let ':' :: s := s | none
  let (_, s) ← twoDigits 0 60 s
  match s with
  | '.' :: rest =>
    let digits := rest.takeWhile Text.isDecimalDigit
    if digits.isEmpty then none else some (rest.drop digits.length)
  | s => some s

def isOffset : List Char → Bool
  | ['Z'] | ['z'] => true
  | sign :: rest =>
    (sign == '+' || sign == '-') &&
      match twoDigits 0 23 rest with
      | some (_, ':' :: rest) => (twoDigits 0 59 rest).map Prod.snd == some []
      | _ => false
  | [] => false

/-- Whether the characters are a time of day, with an offset if that is allowed. -/
def isTime (offset : Bool) (s : List Char) : Bool :=
  match afterTime? s with
  | some [] => true
  | some rest => offset && isOffset rest
  | none => false

/-- Whether the characters are a date, a time, or both. -/
def isDateTime (s : List Char) : Bool :=
  match afterDate? s with
  | none => isTime false s
  | some [] => true
  | some (mark :: rest) => (mark == 'T' || mark == 't' || mark == ' ') && isTime true rest

/-! ## Values without quotes -/

def isDelimiter (c : Char) : Bool :=
  isWhite c || c == '\n' || c == '\r' || c == ',' || c == ']' || c == '\x7d' || c == '#'

def word (s : List Char) : List Char := s.takeWhile (!isDelimiter ·)

/-- The characters of a value without quotes. A date may be followed by a blank and a time. -/
def bareText (s : List Char) : List Char :=
  let first := word s
  match s.drop first.length with
  | ' ' :: rest =>
    if afterDate? first == some [] && isTime true (word rest) then first ++ ' ' :: word rest
    else first
  | _ => first

/-- A truth value, a number or a date. -/
def bareValue? : Reader Document := fun s =>
  let chars := bareText s
  let rest := s.drop chars.length
  if chars == "true".toList then some (.bool true, rest)
  else if chars == "false".toList then some (.bool false, rest)
  else
    match integer? chars with
    | some n => some (.int n, rest)
    | none =>
      if isFloat chars || isDateTime chars then some (.scalar (String.ofList chars), rest) else none

end LevelScript.Toml
