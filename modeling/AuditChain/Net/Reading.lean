import AuditChain.Hex
import AuditChain.Net.Endpoint
import AuditChain.Scanner
/-!
# Reading network addresses

Octets have one to three digits and no leading zero, groups one to four hexadecimal digits, and
ports and scopes any number of digits; `::` stands for at least one zero group. An IPv4 address may
take the place of two groups, but not in front of `::`.
-/

namespace AuditChain.Net

open Scanner

/-! ## Numbers -/

/-- A digit's value in the given radix, ten or sixteen. -/
def digitValue? (radix : Nat) (c : Char) : Option Nat := (Hex.value? c).filter (· < radix)

def isDigit (radix : Nat) (c : Char) : Bool := (digitValue? radix c).isSome

/-- The number with the given digits. -/
def numberOf (radix : Nat) (cs : List Char) : Nat :=
  cs.foldl (fun n c => n * radix + (digitValue? radix c).getD 0) 0

/-- All the digits that come next, at least one, if they are a number below `limit` in a form that
`allowed` accepts. -/
def number (radix limit : Nat) (allowed : List Char → Bool) : Scanner Nat := fun cs =>
  let digits := cs.takeWhile (isDigit radix)
  let n := numberOf radix digits
  if digits ≠ [] ∧ allowed digits ∧ n < limit then some (n, cs.dropWhile (isDigit radix)) else none

/-! ## IPv4 -/

/-- At most three digits, and no zero in front of others. -/
def octetForm (digits : List Char) : Bool := digits.length ≤ 3 && (digits.length == 1 || digits.head? != some '0')

def octet : Scanner UInt8 := do return UInt8.ofNat (← number 10 256 octetForm)

def ipv4 : Scanner Ipv4 := do
  let a ← octet
  char '.'
  let b ← octet
  char '.'
  let c ← octet
  char '.'
  return ⟨a, b, c, ← octet⟩

/-! ## IPv6 -/

def group : Scanner UInt16 := do return UInt16.ofNat (← number 16 65536 fun digits => digits.length ≤ 4)

/-- What `scan` takes, after a colon unless it comes first. -/
def separated {α : Type} (first : Bool) (scan : Scanner α) : Scanner α := do
  if !first then char ':'
  scan

/-- The two groups with the octets of an IPv4 address. -/
def groupsOf (ip : Ipv4) : List UInt16 :=
  [ip.a.toUInt16 <<< 8 ||| ip.b.toUInt16, ip.c.toUInt16 <<< 8 ||| ip.d.toUInt16]

/-- As many groups as come next, at most `room`, whether they ended in an IPv4 address, and the
text after them. -/
def groupRun : (room : Nat) → (first : Bool) → List Char → List UInt16 × Bool × List Char
  | 0, _, cs => ([], false, cs)
  | room + 1, first, cs =>
    -- A dotted address fills two groups, so there must be room for both.
    match if room = 0 then none else separated first ipv4 cs with
    | some (ip, rest) => (groupsOf ip, true, rest)
    | none =>
      match separated first group cs with
      | some (g, rest) =>
        let (more, endsInIpv4, rest) := groupRun room false rest
        (g :: more, endsInIpv4, rest)
      | none => ([], false, cs)

def Ipv6.ofGroups? (groups : List UInt16) : Option Ipv6 :=
  if h : groups.length = 8 then some ⟨groups, h⟩ else none

def ipv6 : Scanner Ipv6 := fun cs =>
  let (head, endsInIpv4, rest) := groupRun 8 true cs
  if head.length = 8 then (Ipv6.ofGroups? head).map (·, rest)
  else if endsInIpv4 then none
  else
    match rest with
    | ':' :: ':' :: rest =>
      let (tail, _, rest) := groupRun (7 - head.length) true rest
      let zeros := List.replicate (8 - head.length - tail.length) 0
      (Ipv6.ofGroups? (head ++ zeros ++ tail)).map (·, rest)
    | _ => none

/-! ## Addresses and endpoints -/

def ip : Scanner Ip := Ip.v4 <$> ipv4 <|> Ip.v6 <$> ipv6

def anyForm (_ : List Char) : Bool := true

def port : Scanner UInt16 := do
  char ':'
  return UInt16.ofNat (← number 10 65536 anyForm)

def scope : Scanner UInt32 := do
  char '%'
  return UInt32.ofNat (← number 10 4294967296 anyForm)

def endpointV4 : Scanner Endpoint := do return .v4 (← ipv4) (← port)

def endpointV6 : Scanner Endpoint := do
  char '['
  let ip ← ipv6
  let scope ← scope <|> pure 0
  char ']'
  return .v6 ip scope (← port)

def Ip.ofChars? (cs : List Char) : Option Ip := ip.whole? cs

namespace Endpoint

def ofChars? (cs : List Char) : Option Endpoint := (endpointV4 <|> endpointV6 : Scanner Endpoint).whole? cs

def ofText? (text : String) : Option Endpoint := ofChars? text.toList

/-- An endpoint, or an address alone that takes the default port. -/
def ofService? (defaultPort : UInt16) (cs : List Char) : Option Endpoint :=
  (ofChars? cs).or ((Ip.ofChars? cs).map (·.withPort defaultPort))

end Endpoint

end AuditChain.Net
