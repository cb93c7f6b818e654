import AuditChain.Bytes
/-!
# SHA3-256

The sponge over the 1600-bit permutation, with 136-byte blocks. The state is five rows of five
64-bit lanes, so the row-wise steps are written once for a row.
-/

namespace AuditChain.Sha3

/-! ## The permutation -/

/-- Five lanes with the same `y` coordinate. -/
structure Row where
  (a b c d e : UInt64)

/-- The rows `y = 0` to `y = 4`. -/
structure State where
  (r0 r1 r2 r3 r4 : Row)

def rotl (x : UInt64) (n : UInt64) : UInt64 := (x <<< n) ||| (x >>> (64 - n))

namespace Row

def zero : Row := ⟨0, 0, 0, 0, 0⟩

def xor (s t : Row) : Row := ⟨s.a ^^^ t.a, s.b ^^^ t.b, s.c ^^^ t.c, s.d ^^^ t.d, s.e ^^^ t.e⟩

/-- What the column parities add to each lane of a row. -/
def spread (p : Row) : Row :=
  ⟨p.e ^^^ rotl p.b 1, p.a ^^^ rotl p.c 1, p.b ^^^ rotl p.d 1, p.c ^^^ rotl p.e 1, p.d ^^^ rotl p.a 1⟩

/-- The nonlinear step: a lane changes where the next one is clear and the one after is set. -/
def chi (s : Row) : Row :=
  ⟨s.a ^^^ (~~~s.b &&& s.c), s.b ^^^ (~~~s.c &&& s.d), s.c ^^^ (~~~s.d &&& s.e),
    s.d ^^^ (~~~s.e &&& s.a), s.e ^^^ (~~~s.a &&& s.b)⟩

end Row

namespace State

def zero : State := ⟨.zero, .zero, .zero, .zero, .zero⟩

def theta (s : State) : State :=
  let d := ((((s.r0.xor s.r1).xor s.r2).xor s.r3).xor s.r4).spread
  ⟨s.r0.xor d, s.r1.xor d, s.r2.xor d, s.r3.xor d, s.r4.xor d⟩

/-- Turns every lane by its own amount and moves it to its place. -/
def rhoPi (s : State) : State where
  r0 := ⟨s.r0.a, rotl s.r1.b 44, rotl s.r2.c 43, rotl s.r3.d 21, rotl s.r4.e 14⟩
  r1 := ⟨rotl s.r0.d 28, rotl s.r1.e 20, rotl s.r2.a 3, rotl s.r3.b 45, rotl s.r4.c 61⟩
  r2 := ⟨rotl s.r0.b 1, rotl s.r1.c 6, rotl s.r2.d 25, rotl s.r3.e 8, rotl s.r4.a 18⟩
  r3 := ⟨rotl s.r0.e 27, rotl s.r1.a 36, rotl s.r2.b 10, rotl s.r3.c 15, rotl s.r4.d 56⟩
  r4 := ⟨rotl s.r0.c 62, rotl s.r1.d 55, rotl s.r2.e 39, rotl s.r3.a 41, rotl s.r4.b 2⟩

def chi (s : State) : State := ⟨s.r0.chi, s.r1.chi, s.r2.chi, s.r3.chi, s.r4.chi⟩

def round (s : State) (constant : UInt64) : State :=
  let t := s.theta.rhoPi.chi
  { t with r0 := { t.r0 with a := t.r0.a ^^^ constant } }

def roundConstants : List UInt64 :=
  [0x0000000000000001, 0x0000000000008082, 0x800000000000808a, 0x8000000080008000,
   0x000000000000808b, 0x0000000080000001, 0x8000000080008081, 0x8000000000008009,
   0x000000000000008a, 0x0000000000000088, 0x0000000080008009, 0x000000008000000a,
   0x000000008000808b, 0x800000000000008b, 0x8000000000008089, 0x8000000000008003,
   0x8000000000008002, 0x8000000000000080, 0x000000000000800a, 0x800000008000000a,
   0x8000000080008081, 0x8000000000008080, 0x0000000080000001, 0x8000000080008008]

def permute (s : State) : State := roundConstants.foldl round s

end State

/-! ## The sponge -/

/-- Bytes of a block. -/
def rate : Nat := 136

/-- The lane written by the first eight bytes of `bs`. -/
def lane (bs : Bytes) : UInt64 := UInt64.ofNat (ofLE (bs.take 8))

/-- The row written by the first forty bytes of `bs`. -/
def row (bs : Bytes) : Row :=
  ⟨lane bs, lane (bs.drop 8), lane (bs.drop 16), lane (bs.drop 24), lane (bs.drop 32)⟩

/-- Adds one block to the outer part of the state and permutes. -/
def absorb (s : State) (block : Bytes) : State :=
  State.permute
    ⟨s.r0.xor (row block), s.r1.xor (row (block.drop 40)), s.r2.xor (row (block.drop 80)),
      s.r3.xor ⟨lane (block.drop 120), lane (block.drop 128), 0, 0, 0⟩, s.r4⟩

/-- The message with the domain bits `01`, the bit 1, zeros, and a last bit 1, up to a block end. -/
def pad (message : Bytes) : Bytes :=
  let gap := rate - message.length % rate
  -- In a gap of one byte the first and the last bit share that byte.
  message ++ if gap = 1 then [0x86] else 0x06 :: (List.replicate (gap - 2) 0 ++ [0x80])

/-- Absorbs `n` blocks from the front of `bs`. -/
def absorbAll : (n : Nat) → State → Bytes → State
  | 0, s, _ => s
  | n + 1, s, bs => absorbAll n (absorb s (bs.take rate)) (bs.drop rate)

def laneBytes (x : UInt64) : Bytes := toLE 8 x.toNat

/-- The first four lanes of the state. -/
def squeeze (s : State) : Bytes :=
  laneBytes s.r0.a ++ (laneBytes s.r0.b ++ (laneBytes s.r0.c ++ laneBytes s.r0.d))

def digest (message : Bytes) : FixedBytes 32 :=
  let padded := pad message
  ⟨squeeze (absorbAll (padded.length / rate) .zero padded), by simp [squeeze, laneBytes]⟩

end AuditChain.Sha3
