/-!
# Plain text

Characters that separate words, trimming, words and lines of a text, and decimal numbers. Texts
are read as lists of characters.
-/

namespace AuditChain.Text

/-! ## Blanks -/

/-- The characters with the Unicode property `White_Space`. -/
def isBlank (c : Char) : Bool :=
  let n := c.toNat
  (0x09 ≤ n && n ≤ 0x0d) || n == 0x20 || n == 0x85 || n == 0xa0 || n == 0x1680 ||
    (0x2000 ≤ n && n ≤ 0x200a) || n == 0x2028 || n == 0x2029 || n == 0x202f || n == 0x205f || n == 0x3000

/-- The text without the blanks at its start. -/
def trimStart (cs : List Char) : List Char := cs.dropWhile isBlank

/-- The text without the blanks at either end. -/
def trim (cs : List Char) : List Char := (trimStart (trimStart cs).reverse).reverse

/-! ## Words and lines -/

/-- Puts a character in front of the first of some pieces of text. -/
def consFirst (c : Char) : List (List Char) → List (List Char)
  | [] => [[c]]
  | piece :: pieces => (c :: piece) :: pieces

/-- The longest stretches without a blank, in order. -/
def words : List Char → List (List Char)
  | [] => []
  | c :: cs =>
    if isBlank c then words cs
    else match cs with
      | [] => [[c]]
      | next :: _ => if isBlank next then [c] :: words cs else consFirst c (words cs)

/-- The lines of a text, each ended by a line feed or by a carriage return and a line feed. The last
line may lack its end. -/
def lines : List Char → List (List Char)
  | [] => []
  | '\n' :: cs => [] :: lines cs
  | '\r' :: '\n' :: cs => [] :: lines cs
  | c :: cs => consFirst c (lines cs)

/-! ## Decimal numbers -/

/-- The value of a decimal digit. -/
def digit? (c : Char) : Option Nat := if '0' ≤ c ∧ c ≤ '9' then some (c.toNat - '0'.toNat) else none

/-- The number with the given decimal digits, read on from `acc`. -/
def ofDigits? (acc : Nat) : List Char → Option Nat
  | [] => some acc
  | c :: cs => (digit? c).bind fun d => ofDigits? (acc * 10 + d) cs

/-- The decimal digits of a number, without leading zeros. -/
def toDigits (n : Nat) : List Char := Nat.toDigits 10 n

/-- A number below `2 ^ 32` in decimal: one or more digits, after an optional plus sign. -/
def readUInt32? (cs : List Char) : Option UInt32 :=
  let digits := match cs with
    | '+' :: rest => rest
    | _ => cs
  if digits.isEmpty then none
  else (ofDigits? 0 digits).bind fun n => if n < UInt32.size then some (UInt32.ofNat n) else none

end AuditChain.Text
