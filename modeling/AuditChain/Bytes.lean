/-!
# Byte strings

A byte string is a list of bytes, and `FixedBytes n` is one of exactly `n` bytes. `toLE` and
`ofLE` write and read numbers with the least significant byte first.
-/

namespace AuditChain

abbrev Bytes := List UInt8

/-! ## Little-endian numbers -/

/-- The `w` low bytes of `n`, least significant first. -/
def toLE : (w : Nat) → (n : Nat) → Bytes
  | 0, _ => []
  | w + 1, n => UInt8.ofNat n :: toLE w (n / 256)

/-- The number written by `bs`, least significant byte first. -/
def ofLE : Bytes → Nat
  | [] => 0
  | b :: bs => b.toNat + 256 * ofLE bs

@[simp] theorem length_toLE (w n : Nat) : (toLE w n).length = w := by
  induction w generalizing n with
  | zero => rfl
  | succ w ih => simp [toLE, ih]

theorem toLE_ofLE (bs : Bytes) : toLE bs.length (ofLE bs) = bs := by
  induction bs with
  | nil => rfl
  | cons b bs ih =>
    have hb := b.toNat_lt
    have h1 : UInt8.ofNat (b.toNat + 256 * ofLE bs) = b := by
      apply UInt8.toNat_inj.1
      rw [UInt8.toNat_ofNat']
      omega
    have h2 : (b.toNat + 256 * ofLE bs) / 256 = ofLE bs := by omega
    rw [List.length_cons, ofLE, toLE, h1, h2, ih]

/-! ## Byte strings of a fixed length -/

/-- A byte string of exactly `n` bytes. -/
@[ext] structure FixedBytes (n : Nat) where
  toList : Bytes
  length_toList : toList.length = n
deriving DecidableEq

namespace FixedBytes

variable {n : Nat}

/-- The zero bytes, also written `0`. -/
def zero (n : Nat) : FixedBytes n := ⟨List.replicate n 0, List.length_replicate⟩

instance : OfNat (FixedBytes n) 0 := ⟨zero n⟩
instance : Inhabited (FixedBytes n) := ⟨0⟩

def isZero (b : FixedBytes n) : Bool := b == 0

/-- `bs` as a byte string of length `n`, if it has that length. -/
def ofList? (n : Nat) (bs : Bytes) : Option (FixedBytes n) :=
  if h : bs.length = n then some ⟨bs, h⟩ else none

/-- The first `n` bytes of a byte string that is at least as long. -/
def takeFrom (bs : Bytes) (h : n ≤ bs.length) : FixedBytes n :=
  ⟨bs.take n, by simp [h]⟩

@[simp] theorem ofList?_toList (b : FixedBytes n) : ofList? n b.toList = some b := by
  simp [ofList?, b.length_toList]

theorem ofList?_eq_some_iff {bs : Bytes} {b : FixedBytes n} : ofList? n bs = some b ↔ bs = b.toList := by
  constructor
  · intro h
    by_cases hl : bs.length = n
    · simp only [ofList?, hl, dite_true, Option.some.injEq] at h
      rw [← h]
    · simp [ofList?, hl] at h
  · rintro rfl
    exact ofList?_toList b

/-- Byte strings are ordered as words are in a dictionary. -/
instance : Ord (FixedBytes n) := ⟨fun a b => compare a.toList b.toList⟩

/-- The byte strings in ascending order. -/
def sort (bs : List (FixedBytes n)) : List (FixedBytes n) :=
  bs.mergeSort fun a b => (compare a b).isLE

end FixedBytes

end AuditChain
