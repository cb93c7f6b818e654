/-!
# Network addresses

IPv4 and IPv6 addresses, and endpoints, which add a port. Texts are the usual ones: an IPv6 address
is written in lower case with its first longest run of two or more zero groups left out, one that
stands for an IPv4 address ends in dotted form, and an IPv6 address before a port is in brackets.
-/

namespace AuditChain.Net

/-! ## Addresses -/

structure Ipv4 where
  (a b c d : UInt8)
deriving DecidableEq

structure Ipv6 where
  groups : List UInt16
  length_groups : groups.length = 8
deriving DecidableEq

inductive Ip where
  | v4 (ip : Ipv4)
  | v6 (ip : Ipv6)
deriving DecidableEq

/-- An address with a port, and for IPv6 a scope, which is zero where there is none. The flow label that an IPv6
endpoint may have besides is left out: no text shows it, and whatever is read has the label zero. -/
inductive Endpoint where
  | v4 (ip : Ipv4) (port : UInt16)
  | v6 (ip : Ipv6) (scope : UInt32) (port : UInt16)
deriving DecidableEq

def Endpoint.port : Endpoint → UInt16
  | v4 _ port => port
  | v6 _ _ port => port

def Ip.withPort : Ip → UInt16 → Endpoint
  | v4 ip, port => .v4 ip port
  | v6 ip, port => .v6 ip 0 port

/-! ## Texts -/

def decimal (n : Nat) : List Char := Nat.toDigits 10 n

namespace Ipv4

def chars (ip : Ipv4) : List Char :=
  decimal ip.a.toNat ++ '.' :: (decimal ip.b.toNat ++ '.' :: (decimal ip.c.toNat ++ '.' :: decimal ip.d.toNat))

end Ipv4

namespace Ipv6

def groupChars (g : UInt16) : List Char := Nat.toDigits 16 g.toNat

/-- Groups with colons between them. -/
def joined : List UInt16 → List Char
  | [] => []
  | [g] => groupChars g
  | g :: rest => groupChars g ++ ':' :: joined rest

/-- How many groups from position `i` on are zero. -/
def zerosFrom (groups : List UInt16) (i : Nat) : Nat := ((groups.drop i).takeWhile (· == 0)).length

/-- Where the first longest run of zero groups starts, and its length. -/
def longestZeros (groups : List UInt16) : Nat × Nat :=
  (List.range groups.length).foldl
    (fun best i => if best.2 < zerosFrom groups i then (i, zerosFrom groups i) else best) (0, 0)

/-- The IPv4 address in the last two groups, if the others mark it as one. -/
def mapped? (ip : Ipv6) : Option Ipv4 :=
  match ip.groups with
  | [0, 0, 0, 0, 0, 0xffff, high, low] =>
    some ⟨(high >>> 8).toUInt8, high.toUInt8, (low >>> 8).toUInt8, low.toUInt8⟩
  | _ => none

def chars (ip : Ipv6) : List Char :=
  match ip.mapped? with
  | some v4 => "::ffff:".toList ++ v4.chars
  | none =>
    let (start, length) := longestZeros ip.groups
    if length < 2 then joined ip.groups
    else joined (ip.groups.take start) ++ ':' :: ':' :: joined (ip.groups.drop (start + length))

end Ipv6

def Ip.chars : Ip → List Char
  | v4 ip => ip.chars
  | v6 ip => ip.chars

namespace Endpoint

def chars : Endpoint → List Char
  | v4 ip port => ip.chars ++ ':' :: decimal port.toNat
  | v6 ip scope port =>
    let scopeChars := if scope = 0 then [] else '%' :: decimal scope.toNat
    '[' :: (ip.chars ++ (scopeChars ++ ']' :: ':' :: decimal port.toNat))

def toText (e : Endpoint) : String := String.ofList e.chars

end Endpoint

end AuditChain.Net
