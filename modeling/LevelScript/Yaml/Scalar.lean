import LevelScript.Text.Display
import LevelScript.Text.Numeral

/-!
# YAML scalars

How a text is written in a YAML file. A text of several lines is a literal block. A text that
would be read as something else, such as a number, is put in single quotes. Any other text is
written plainly where its characters allow it, else in single quotes, else in double quotes.
-/

namespace LevelScript.Yaml

/-! ## Texts that look like other values -/

def isNullWord (s : String) : Bool := ["null", "Null", "NULL", "~"].contains s

def isBoolWord (s : String) : Bool :=
  ["true", "True", "TRUE", "false", "False", "FALSE"].contains s

def digitValue? (base : Nat) (c : Char) : Option Nat :=
  let v :=
    if '0' ≤ c && c ≤ '9' then some (c.toNat - '0'.toNat)
    else if 'a' ≤ c && c ≤ 'z' then some (c.toNat - 'a'.toNat + 10)
    else if 'A' ≤ c && c ≤ 'Z' then some (c.toNat - 'A'.toNat + 10)
    else none
  v.filter (· < base)

/-- The value of digits in a base; there has to be one. -/
def digitsIn? (base : Nat) (digits : List Char) : Option Nat :=
  if digits.isEmpty then none
  else digits.foldlM (fun n c => (digitValue? base c).map (n * base + ·)) 0

/-- The base that a mark after a leading zero stands for. -/
def markedBase? : Char → Option Nat
  | 'x' => some 16
  | 'o' => some 8
  | 'b' => some 2
  | _ => none

/-- A number with a marked base, at most a bound. -/
def isMarkedInteger (bound : Nat) : List Char → Bool
  | '0' :: mark :: digits =>
    match markedBase? mark with
    | some base => ((digitsIn? base digits).filter (· ≤ bound)).isSome
    | none => false
  | _ => false

def withoutSign : List Char → List Char
  | '+' :: rest | '-' :: rest => rest
  | chars => chars

/-- Digits after a needless zero, which are no number. -/
def isZeroPadded (chars : List Char) : Bool :=
  match withoutSign chars with
  | '0' :: c :: rest => (c :: rest).all Text.isDecimalDigit
  | _ => false

def isInteger (chars : List Char) : Bool :=
  match chars with
  | '-' :: rest =>
    isMarkedInteger (1 <<< 127) rest || ((Text.digits? rest).filter (· ≤ 1 <<< 127)).isSome
  | '+' :: rest | rest =>
    isMarkedInteger (1 <<< 128 - 1) rest || ((Text.digits? rest).filter (· < 1 <<< 128)).isSome

def isInfinity (s : String) : Bool := [".inf", ".Inf", ".INF"].contains s

def isNotANumber (s : String) : Bool := [".nan", ".NaN", ".NAN"].contains s

def isFloat (chars : List Char) : Bool :=
  let finite (digits : List Char) : Bool :=
    match Text.Decimal.read? digits with
    | some d => d.isFinite
    | none => false
  isInfinity (String.ofList (withoutSign chars)) || isNotANumber (String.ofList chars) ||
    finite (withoutSign chars)

/-- Whether a plain text would be read as something else, or as a padded number. -/
def isAmbiguous (s : String) : Bool :=
  s.isEmpty || isNullWord s || isBoolWord s || isZeroPadded s.toList || isInteger s.toList ||
    isFloat s.toList

/-! ## Characters -/

def isBreak (c : Char) : Bool :=
  c == '\n' || c == '\r' || c == '\u0085' || c == '\u2028' || c == '\u2029'

def isSpace (c : Char) : Bool := c == ' '

/-- What ends a word. -/
def isBlank (c : Char) : Bool := isSpace c || c == '\t' || isBreak c || c == '\x00'

def isPrintable (c : Char) : Bool :=
  let n := c.toNat
  n == 0x0A || (0x20 ≤ n && n ≤ 0x7E) || (0xA0 ≤ n && n != 0xFEFF && n != 0xFFFE && n != 0xFFFF)

/-- Whether a character of one class is directly followed by one of another class. -/
def adjacent (p q : Char → Bool) : List Char → Bool
  | a :: b :: rest => (p a && q b) || adjacent p q (b :: rest)
  | _ => false

def startsBlank : List Char → Bool
  | [] => true
  | c :: _ => isBlank c

/-- Whether a mark stands inside the text, after a character `before`: a colon before a blank,
or a number sign after a blank. -/
def hasInnerMark (before : Char) : List Char → Bool
  | [] => false
  | c :: rest =>
    (c == ':' && startsBlank rest) || (c == '#' && isBlank before) || hasInnerMark c rest

/-- Whether the text could be taken for a mark of the format. -/
def hasMark : List Char → Bool
  | [] => false
  | c :: rest =>
    ("#,[]\x7b\x7d&*!|>'\"%@`".toList.contains c) ||
      (['?', ':', '-'].contains c && startsBlank rest) ||
      ['-', '.'].any (fun d => (c :: rest).take 3 == [d, d, d]) || hasInnerMark c rest

/-! ## Styles -/

inductive Style where
  | plain
  | singleQuoted
  | doubleQuoted
  | literal
  deriving DecidableEq, Repr, Inhabited

def endsWith (p : Char → Bool) (chars : List Char) : Bool :=
  (chars.getLast?.map p).getD false

def plainAllowed (chars : List Char) : Bool :=
  chars.all isPrintable && !chars.any isBreak && !(chars.head?.map isSpace).getD false &&
    !endsWith isSpace chars && !hasMark chars

def singleQuotedAllowed (chars : List Char) : Bool :=
  chars.all isPrintable && !adjacent isBreak isSpace chars && !adjacent isSpace isBreak chars

def literalAllowed (chars : List Char) : Bool :=
  chars.all isPrintable && !adjacent isSpace isBreak chars && !endsWith isSpace chars

def style (s : String) : Style :=
  let chars := s.toList
  if chars.contains '\n' then
    if literalAllowed chars then .literal else .doubleQuoted
  else if plainAllowed chars && !isAmbiguous s then .plain
  else if singleQuotedAllowed chars then .singleQuoted
  else .doubleQuoted

/-! ## Writing -/

def spaces (n : Nat) : String := String.ofList (List.replicate n ' ')

/-- The characters with an indent after each break; `fresh` says whether a break came last. -/
def indented (indent : Nat) (write : Char → String) : Bool → List Char → String
  | _, [] => ""
  | fresh, c :: rest =>
    if isBreak c then c.toString ++ indented indent write true rest
    else (if fresh then spaces indent else "") ++ write c ++ indented indent write false rest

def singleQuotedChar (c : Char) : String := if c == '\'' then "''" else c.toString

def doubleQuotedChar (c : Char) : String :=
  if isPrintable c && !isBreak c && c != '"' && c != '\\' then c.toString
  else match c with
    | '\x00' => "\\0"
    | '\x07' => "\\a"
    | '\x08' => "\\b"
    | '\t' => "\\t"
    | '\n' => "\\n"
    | '\x0B' => "\\v"
    | '\x0C' => "\\f"
    | '\r' => "\\r"
    | '\x1B' => "\\e"
    | '"' => "\\\""
    | '\\' => "\\\\"
    | '\u0085' => "\\N"
    | '\u2028' => "\\L"
    | '\u2029' => "\\P"
    | c =>
      if c.toNat ≤ 0xFF then "\\x" ++ Text.upperHexPadded 2 c.toNat
      else if c.toNat ≤ 0xFFFF then "\\u" ++ Text.upperHexPadded 4 c.toNat
      else "\\U" ++ Text.upperHexPadded 8 c.toNat

/-- Says how a literal block is indented, if it starts with a space or a break, and what becomes
of the breaks at its end: none is kept, one, or all. -/
def literalHeader (chars : List Char) : String :=
  let hint := if (chars.head?.map fun c => isSpace c || isBreak c).getD false then "2" else ""
  let chomp := match chars.reverse with
    | c :: rest =>
      if !isBreak c then "-"
      else if (rest.head?.map isBreak).getD true then "+"
      else ""
    | [] => "-"
  "|" ++ hint ++ chomp

/-- Ends a line. -/
def line (s : String) : String := s ++ "\n"

/-- A text in single quotes. After a break at its end the closing quote is indented. -/
def singleQuoted (indent : Nat) (chars : List Char) : String :=
  let margin := if endsWith isBreak chars then spaces indent else ""
  "'" ++ indented indent singleQuotedChar false chars ++ margin ++ "'"

/-- A literal block. A break at its end ends its last line, whatever break it is. -/
def literal (indent : Nat) (chars : List Char) : String :=
  let body := indented indent Char.toString true chars
  line (literalHeader chars) ++ if endsWith isBreak chars then body else line body

/-- A text as a scalar with the end of its last line; lines after its first are indented. -/
def scalar (indent : Nat) (s : String) : String :=
  match style s with
  | .plain => line s
  | .singleQuoted => line (singleQuoted indent s.toList)
  | .doubleQuoted => line ("\"" ++ String.join (s.toList.map doubleQuotedChar) ++ "\"")
  | .literal => literal indent s.toList

end LevelScript.Yaml
