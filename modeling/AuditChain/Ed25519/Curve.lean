import AuditChain.Bytes
/-!
# The curve of Ed25519

The twisted Edwards curve `-x² + y² = 1 + d·x²·y²` over the integers modulo `p = 2²⁵⁵ - 19`, with
points in extended coordinates. The addition law is complete, so one formula adds any two points.
-/

namespace AuditChain.Ed25519

/-! ## The field -/

/-- The number `2 ^ 255`. -/
def topBit : Nat := 1 <<< 255

def p : Nat := topBit - 19

/-- The order of the base point. -/
def order : Nat := (1 <<< 252) + 27742317777372353535851937790883648493

def subMod (a b : Nat) : Nat := (a + (p - b % p)) % p

/-- The exponent bits of `e`, the lowest `n`, most significant first. -/
def bits : (n : Nat) → (e : Nat) → List Bool
  | 0, _ => []
  | n + 1, e => e.testBit n :: bits n e

/-- `b` to the power `e`, for an exponent below `2 ^ 256`. -/
def powMod (b e : Nat) : Nat :=
  (bits 256 e).foldl (fun acc bit => let sq := acc * acc % p; if bit then sq * b % p else sq) 1

def inverse (a : Nat) : Nat := powMod a (p - 2)

/-- The curve's coefficient, `-121665 / 121666`. -/
def d : Nat := 37095705934669439343138083508754565189542113879843219016388785533085940283555

/-- A square root of `-1`. -/
def sqrtMinusOne : Nat := 19681161376707505956807079304988542015446066515923890162744021073123829784752

/-- The even one of the two square roots of `u / v`, if there is one. -/
def sqrtRatio (u v : Nat) : Option Nat :=
  -- `u·v³·(u·v⁷)^((p-5)/8)`, whose square times `v` is `u` times a fourth root of one.
  let candidate := u * (v * v % p * v % p) % p *
    powMod (u * (v * v % p * v % p * (v * v % p) % p * (v * v % p) % p) % p) ((p - 5) / 8) % p
  let check := v * (candidate * candidate % p) % p
  let root :=
    if check = u % p then some candidate
    else if check = subMod 0 u then some (candidate * sqrtMinusOne % p)
    else none
  root.map fun r => if r % 2 = 0 then r else p - r

/-! ## Points -/

/-- A point `(x / z, y / z)` with `t = x·y / z`. -/
structure Point where
  (x y z t : Nat)

namespace Point

def neutral : Point := ⟨0, 1, 1, 0⟩

def base : Point where
  x := 15112221349535400772501151409588531511454012693041857206046113283949847762202
  y := 46316835694926478169428394003475163141307993866256225615783033603165251855960
  z := 1
  t := 46827403850823179245072216630277197565144205554125654976674165829533817101731

def add (a b : Point) : Point :=
  let m := subMod a.y a.x * subMod b.y b.x % p
  let n := (a.y + a.x) * (b.y + b.x) % p
  let c := 2 * d * (a.t * b.t % p) % p
  let e := 2 * a.z * b.z % p
  let h := n + m
  let f := e + c
  let g := subMod e c
  let w := subMod n m
  ⟨w * g % p, f * h % p, g * f % p, w * h % p⟩

def double (a : Point) : Point :=
  let xx := a.x * a.x % p
  let yy := a.y * a.y % p
  let h := xx + yy
  let w := subMod h ((a.x + a.y) * (a.x + a.y))
  let g := subMod xx yy
  let f := 2 * (a.z * a.z) + g
  ⟨w * f % p, g * h % p, f * g % p, w * h % p⟩

def neg (a : Point) : Point := ⟨subMod 0 a.x, a.y, a.z, subMod 0 a.t⟩

/-- The point added to itself `k` times, for `k` below `2 ^ 256`. -/
def scale (k : Nat) (a : Point) : Point :=
  (bits 256 k).foldl (fun acc bit => let twice := acc.double; if bit then twice.add a else twice) neutral

def isNeutral (a : Point) : Bool := a.x % p == 0 && (a.y % p == a.z % p)

/-- The point has order 1, 2, 4 or 8. -/
def isSmallOrder (a : Point) : Bool := a.double.double.double.isNeutral

/-- The `y` coordinate in 255 bits, then one bit for the parity of `x`. -/
def compress (a : Point) : FixedBytes 32 :=
  let zi := inverse a.z
  let x := a.x * zi % p
  let y := a.y * zi % p
  ⟨toLE 32 (y + x % 2 * topBit), length_toLE _ _⟩

/-- Reads 255 bits as `y`, taken modulo `p`, and the last bit as the parity of `x`. The parity is
not looked at where `x` is zero. -/
def decompress (bs : FixedBytes 32) : Option Point :=
  let n := ofLE bs.toList
  let y := n % topBit % p
  let yy := y * y % p
  (sqrtRatio (subMod yy 1) (d * yy % p + 1)).map fun r =>
    let x := if n / topBit = 1 then subMod 0 r else r
    ⟨x, y, 1, x * y % p⟩

end Point

end AuditChain.Ed25519
