import AuditChain.Hex
import AuditChain.Scanner
import AuditChain.Text
import AuditChain.Toml.Item
/-!
# Strings, numbers, dates and booleans

Strings are scanned character by character. Every other scalar is a run of characters up to a
delimiter, and is then told by its form. Integers must fit in 128 bits, signed or unsigned, and
floats must be finite unless written otherwise.
-/

namespace AuditChain.Toml

open Scanner

/-! ## Characters -/

def isSpace (c : Char) : Bool := c == ' ' || c == '\t'

/-- Control characters other than the tab stand nowhere in a document but at line ends. -/
def isPlain (c : Char) : Bool := c == '\t' || (' ' ≤ c && c.toNat ≠ 0x7f)

def newline : Scanner Unit := char '\n' <|> chars ['\r', '\n']

def spaces : Scanner Unit := do let _ ← span isSpace

/-! ## Strings -/

/-- The character whose code has exactly `digits` hexadecimal digits, which come next. -/
def codePoint (digits : Nat) : Scanner (List Char) := fun cs =>
  let code := cs.take digits
  match code.mapM Hex.value? with
  | none => none
  | some values =>
    let n := values.foldl (fun n v => 16 * n + v) 0
    if code.length = digits ∧ n.isValidChar then some ([Char.ofNat n], cs.drop digits) else none

/-- What a backslash and the characters after it stand for. -/
def escape : Scanner (List Char) := do
  char '\\'
  match ← satisfying fun _ => true with
  | 'b' => return ['\x08']
  | 't' => return ['\t']
  | 'n' => return ['\n']
  | 'f' => return ['\x0c']
  | 'r' => return ['\r']
  | 'e' => return ['\x1b']
  | '"' => return ['"']
  | '\\' => return ['\\']
  | 'x' => codePoint 2
  | 'u' => codePoint 4
  | 'U' => codePoint 8
  | _ => failure

/-- One character that satisfies `p`. -/
def one (p : Char → Bool) : Scanner (List Char) := do return [← satisfying p]

def basicString : Scanner (List Char) := do
  char '"'
  let parts ← many ((one fun c => isPlain c && c != '"' && c != '\\') <|> escape)
  char '"'
  return parts.flatten

def literalString : Scanner (List Char) := do
  char '\''
  let text ← span fun c => isPlain c && c != '\''
  char '\''
  return text

/-- A line break in a string of several lines, which stays as it is written. -/
def lineBreak : Scanner (List Char) :=
  (do char '\n'; return ['\n']) <|> (do chars ['\r', '\n']; return ['\r', '\n'])

/-- A backslash at a line end, with all blanks and line breaks after it, stands for nothing. -/
def continuation : Scanner (List Char) := do
  char '\\'
  spaces
  newline
  let _ ← many ((do let _ ← satisfying isSpace) <|> newline)
  return []

/-- A quote that does not begin three of them. -/
def loneQuote (quote : Char) : Scanner (List Char) := fun cs =>
  if cs.take 3 = [quote, quote, quote] then none else one (· == quote) cs

/-- The end of a string of several lines: three quotes, after at most two that belong to the
string. -/
def closing (quote : Char) : Scanner (List Char) := fun cs =>
  let quotes := ((cs.takeWhile (· == quote)).take 5).length
  if quotes < 3 then none else some (List.replicate (quotes - 3) quote, cs.drop quotes)

/-- A string of several lines between threefold quotes. A line break right after the first quotes
does not count. -/
def multiline (quote : Char) (part : Scanner (List Char)) : Scanner (List Char) := do
  chars [quote, quote, quote]
  let _ ← optional newline
  let parts ← many (part <|> lineBreak <|> loneQuote quote)
  return parts.flatten ++ (← closing quote)

def multilineBasic : Scanner (List Char) :=
  multiline '"' ((one fun c => isPlain c && c != '"' && c != '\\') <|> continuation <|> escape)

def multilineLiteral : Scanner (List Char) := multiline '\'' (one fun c => isPlain c && c != '\'')

def string : Scanner (List Char) :=
  multilineBasic <|> basicString <|> multilineLiteral <|> literalString

/-! ## Numbers -/

def digit? (radix : Nat) (c : Char) : Option Nat := (Hex.value? c).filter (· < radix)

/-- The digits of a number after its first, each with an underscore allowed before it. -/
def moreDigits? (radix : Nat) : List Char → Option (List Nat)
  | [] => some []
  | '_' :: c :: rest => do return (← digit? radix c) :: (← moreDigits? radix rest)
  | c :: rest => do return (← digit? radix c) :: (← moreDigits? radix rest)

/-- The digits of a number, with underscores allowed between two of them. -/
def digits? (radix : Nat) : List Char → Option (List Nat)
  | [] => none
  | c :: rest => do return (← digit? radix c) :: (← moreDigits? radix rest)

def ofDigits (radix : Nat) (digits : List Nat) : Nat := digits.foldl (fun n d => radix * n + d) 0

/-- Splits a sign off. -/
def signed : List Char → Bool × List Char
  | '-' :: rest => (true, rest)
  | '+' :: rest => (false, rest)
  | cs => (false, cs)

/-- Decimal digits without a leading zero. -/
def wholeDigits? (cs : List Char) : Option (List Nat) :=
  (digits? 10 cs).filter fun ds => ds.length == 1 || ds.head? != some 0

def integer? (cs : List Char) : Option Int :=
  match cs with
  | '0' :: 'x' :: rest => (digits? 16 rest).map fun ds => (ofDigits 16 ds : Int)
  | '0' :: 'o' :: rest => (digits? 8 rest).map fun ds => (ofDigits 8 ds : Int)
  | '0' :: 'b' :: rest => (digits? 2 rest).map fun ds => (ofDigits 2 ds : Int)
  | _ =>
    let (negative, rest) := signed cs
    (wholeDigits? rest).map fun ds => if negative then -(ofDigits 10 ds : Int) else ofDigits 10 ds

def isStorable (n : Int) : Bool :=
  -0x80000000000000000000000000000000 ≤ n && n < 0x100000000000000000000000000000000

/-- The least number that is too large for a double: the largest double and half a step, which is
`2 ^ 1024 - 2 ^ 970`. -/
def floatLimit : Nat := 0x3fffffffffffff <<< 970

/-- `mantissa · 10 ^ exponent` is a finite double. Exponents far from the limit are decided by the
number of digits. -/
def isFinite (mantissa : List Nat) (exponent : Int) : Bool :=
  let significant := mantissa.dropWhile (· == 0)
  let magnitude := significant.length + exponent
  if significant.isEmpty || magnitude < 300 then true
  else if 320 < magnitude then false
  else
    let n := ofDigits 10 significant
    let scale := Nat.pow 10 exponent.natAbs
    if exponent < 0 then n < floatLimit * scale else n * scale < floatLimit

/-- The digits after a point, if there is one, and the exponent, if there is one. At least one of the
two must be there. -/
def floatTail? (cs : List Char) : Option (List Nat × Int) := do
  let exponentOf (cs : List Char) : Option Int := do
    let (negative, rest) := signed cs
    let ds ← digits? 10 rest
    return if negative then -(ofDigits 10 ds : Int) else ofDigits 10 ds
  let isMark (c : Char) : Bool := c == 'e' || c == 'E'
  match cs with
  | '.' :: rest =>
    let fraction ← digits? 10 (rest.takeWhile (!isMark ·))
    match rest.dropWhile (!isMark ·) with
    | [] => return (fraction, 0)
    | _ :: exponent => return (fraction, ← exponentOf exponent)
  | c :: rest => if isMark c then return ([], ← exponentOf rest) else none
  | [] => none

/-- Infinities, the number that is none, and finite numbers. -/
def isFloat (cs : List Char) : Bool :=
  let (_, rest) := signed cs
  if rest = ['i', 'n', 'f'] ∨ rest = ['n', 'a', 'n'] then true
  else
    let isWhole (c : Char) : Bool := c.isDigit || c == '_'
    match wholeDigits? (rest.takeWhile isWhole), floatTail? (rest.dropWhile isWhole) with
    | some whole, some (fraction, exponent) => isFinite (whole ++ fraction) (exponent - fraction.length)
    | _, _ => false

/-! ## Dates and times -/

/-- Exactly `n` decimal digits, as a number. -/
def fixedDigits (n : Nat) : Scanner Nat := fun cs =>
  let ds := cs.take n
  if ds.length = n ∧ ds.all Char.isDigit then (Text.ofDigits? 0 ds).map (·, cs.drop n) else none

def isLeap (year : Nat) : Bool := year % 4 == 0 && (year % 100 != 0 || year % 400 == 0)

def daysIn (year month : Nat) : Nat :=
  if month = 2 then if isLeap year then 29 else 28
  else if month = 4 ∨ month = 6 ∨ month = 9 ∨ month = 11 then 30
  else 31

def date : Scanner Unit := do
  let year ← fixedDigits 4
  char '-'
  let month ← fixedDigits 2
  char '-'
  let day ← fixedDigits 2
  guard (1 ≤ month ∧ month ≤ 12 ∧ 1 ≤ day ∧ day ≤ daysIn year month)

/-- Hours and minutes. -/
def hourMinute : Scanner Unit := do
  let hour ← fixedDigits 2
  char ':'
  let minute ← fixedDigits 2
  guard (hour ≤ 23 ∧ minute ≤ 59)

def fraction : Scanner Unit := do
  char '.'
  let ds ← span Char.isDigit
  guard (!ds.isEmpty)

/-- A time of day; seconds and their fraction may be left out, and a leap second is one more. -/
def time : Scanner Unit := do
  hourMinute
  let _ ← optional do
    char ':'
    let second ← fixedDigits 2
    guard (second ≤ 60)
    let _ ← optional fraction

def offset : Scanner Unit :=
  (do let _ ← satisfying fun c => c == 'Z' || c == 'z') <|>
    (do let _ ← satisfying (fun c => c == '+' || c == '-'); hourMinute)

def dateTime : Scanner Unit :=
  time <|> do
    date
    let _ ← optional do
      let _ ← satisfying fun c => c == 'T' || c == 't' || c == ' '
      time
      let _ ← optional offset

/-! ## Scalars other than strings -/

def isDelimiter (c : Char) : Bool :=
  isSpace c || c == '\n' || c == '\r' || c == ',' || c == ']' || c == '\x7d' || c == '#'

/-- A run of characters up to a delimiter. A space between a date and a time belongs to the run. -/
def run : Scanner (List Char) := fun cs =>
  let first := cs.takeWhile (!isDelimiter ·)
  let rest := cs.dropWhile (!isDelimiter ·)
  match (date.whole? first), rest with
  | some (), ' ' :: c :: _ =>
    if c.isDigit then
      let second := (rest.drop 1).takeWhile (!isDelimiter ·)
      some (first ++ ' ' :: second, (rest.drop 1).dropWhile (!isDelimiter ·))
    else some (first, rest)
  | _, _ => some (first, rest)

def scalar? (cs : List Char) : Option Item :=
  if cs = "true".toList then some (.boolean true)
  else if cs = "false".toList then some (.boolean false)
  else
    match integer? cs with
    | some n => if isStorable n then some (.integer n) else none
    | none =>
      if isFloat cs then some (.float (String.ofList cs))
      else (dateTime.whole? cs).map fun _ => .dateTime (String.ofList cs)

def scalar : Scanner Item := do
  match scalar? (← run) with
  | some item => return item
  | none => failure

end AuditChain.Toml
