import AuditChain.Bytes
/-!
# Hexadecimal text

Two digits a byte, the high one first. Writing uses lower case; reading takes either case, and
nothing but digits.
-/

namespace AuditChain.Hex

/-- The digit for a number below sixteen. -/
def digit (n : Nat) : Char := if n < 10 then Char.ofNat ('0'.toNat + n) else Char.ofNat ('a'.toNat + (n - 10))

def value? (c : Char) : Option Nat :=
  if '0' ≤ c ∧ c ≤ '9' then some (c.toNat - '0'.toNat)
  else if 'a' ≤ c ∧ c ≤ 'f' then some (c.toNat - 'a'.toNat + 10)
  else if 'A' ≤ c ∧ c ≤ 'F' then some (c.toNat - 'A'.toNat + 10)
  else none

def chars (bs : Bytes) : List Char := bs.flatMap fun b => [digit (b.toNat / 16), digit (b.toNat % 16)]

def encode (bs : Bytes) : String := String.ofList (chars bs)

def ofChars? : List Char → Option Bytes
  | [] => some []
  | [_] => none
  | c :: d :: cs => do
    let high ← value? c
    let low ← value? d
    let rest ← ofChars? cs
    return UInt8.ofNat (16 * high + low) :: rest

def decode? (text : String) : Option Bytes := ofChars? text.toList

theorem value?_digit {n : Nat} (h : n < 16) : value? (digit n) = some n := by
  revert n
  decide

theorem ofChars?_chars (bs : Bytes) : ofChars? (chars bs) = some bs := by
  induction bs with
  | nil => rfl
  | cons b bs ih =>
    have hb := b.toNat_lt
    have h1 : b.toNat / 16 < 16 := by omega
    have h2 : b.toNat % 16 < 16 := by omega
    have h3 : UInt8.ofNat (16 * (b.toNat / 16) + b.toNat % 16) = b := by
      rw [Nat.div_add_mod]
      exact UInt8.ofNat_toNat
    rw [chars, List.flatMap_cons, ← chars]
    simp [ofChars?, value?_digit h1, value?_digit h2, ih, h3, -UInt8.ofNat_add, -UInt8.ofNat_mul]

@[simp] theorem decode?_encode (bs : Bytes) : decode? (encode bs) = some bs := by
  simp [decode?, encode, ofChars?_chars]

end AuditChain.Hex
