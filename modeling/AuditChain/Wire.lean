import AuditChain.Hash
/-!
# The wire format

Numbers are little-endian, and byte strings and lists start with their length as a compact size.
A `Reader` takes a value off the front of some bytes and returns the rest; `Wire` holds the types
that have one encoding and one reader. A compact size must be written in its shortest form and may
not exceed `maxSize`, which bounds what a length prefix can ask for.
-/

namespace AuditChain

/-! ## Readers -/

/-- Why bytes do not read as a value. -/
inductive ReadError where
  | truncated
  | oversized (length : Nat)
  | nonCanonical
  | trailing (count : Nat)
deriving DecidableEq

/-- The largest length a prefix may give: that of the largest block. -/
def maxSize : Nat := 2000000

def ReadError.message : ReadError → String
  | truncated => "I/O error: failed to fill whole buffer"
  | oversized length => s!"Length {length} exceeds maximum {maxSize}"
  | nonCanonical => "Non-canonical compact size"
  | trailing count => s!"{count} trailing bytes after value"

/-- Takes a value off the front of some bytes. -/
abbrev Reader := StateT Bytes (Except ReadError)

/-- The next `n` bytes. -/
def readFixed (n : Nat) : Reader (FixedBytes n) := fun bs =>
  if h : (bs.take n).length = n then .ok (⟨bs.take n, h⟩, bs.drop n) else .error .truncated

/-- The number in the next `w` bytes. -/
def readLE (w : Nat) : Reader Nat := do
  return ofLE (← readFixed w).toList

/-- `n` values, put in front of `acc`, which holds the earlier ones in reverse. -/
def readMany {α : Type} (item : Reader α) : (n : Nat) → (acc : List α) → Bytes → Except ReadError (List α × Bytes)
  | 0, acc, bs => .ok (acc.reverse, bs)
  | n + 1, acc, bs =>
    match item bs with
    | .error e => .error e
    | .ok (x, rest) => readMany item n (x :: acc) rest

/-- The value that spans all of `bs`. -/
def readAll {α : Type} (reader : Reader α) (bs : Bytes) : Except ReadError α :=
  match reader bs with
  | .error e => .error e
  | .ok (x, []) => .ok x
  | .ok (_, rest) => .error (.trailing rest.length)

/-! ## Compact sizes -/

/-- `n` in the shortest of four forms: one byte, or a tag byte and two, four or eight bytes. -/
def compactSize (n : Nat) : Bytes :=
  if n < 0xfd then toLE 1 n
  else if n < 0x10000 then 0xfd :: toLE 2 n
  else if n < 0x100000000 then 0xfe :: toLE 4 n
  else 0xff :: toLE 8 n

/-- The number in the next `w` bytes, unless it is below `least` and so fits a shorter form. -/
def readWide (w least : Nat) : Reader Nat := do
  let n ← readLE w
  if n < least then throw .nonCanonical
  return n

/-- The number in the next bytes, which must have its shortest form. -/
def readShortest : Reader Nat := do
  let tag ← readLE 1
  if tag = 0xfd then readWide 2 0xfd
  else if tag = 0xfe then readWide 4 0x10000
  else if tag = 0xff then readWide 8 0x100000000
  else return tag

def readCompactSize : Reader Nat := do
  let n ← readShortest
  -- The form is judged before the size.
  if maxSize < n then throw (.oversized n)
  return n

/-! ## Byte strings and lists -/

/-- A byte string after its length. -/
def encodeBytes (bs : Bytes) : Bytes := compactSize bs.length ++ bs

def readBytes : Reader Bytes := do
  let n ← readCompactSize
  return (← readFixed n).toList

/-- Some values after their number. -/
def encodeList {α : Type} (encode : α → Bytes) (xs : List α) : Bytes :=
  compactSize xs.length ++ xs.flatMap encode

def readList {α : Type} (item : Reader α) : Reader (List α) := do
  let n ← readCompactSize
  readMany item n []

/-! ## Types on the wire -/

/-- A type whose every value has an encoding, and its reader. -/
class Wire (α : Type) where
  encode : α → Bytes
  read : Reader α

export Wire (encode)

instance : Wire UInt8 where
  encode n := toLE 1 n.toNat
  read := do return UInt8.ofNat (← readLE 1)

instance : Wire UInt32 where
  encode n := toLE 4 n.toNat
  read := do return UInt32.ofNat (← readLE 4)

instance : Wire Int32 where
  encode n := toLE 4 n.toUInt32.toNat
  read := do return (UInt32.ofNat (← readLE 4)).toInt32

instance : Wire Int64 where
  encode n := toLE 8 n.toUInt64.toNat
  read := do return (UInt64.ofNat (← readLE 8)).toInt64

instance {n : Nat} : Wire (FixedBytes n) where
  encode b := b.toList
  read := readFixed n

end AuditChain
