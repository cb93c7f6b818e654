import Mathlib.Algebra.Group.Nat.Defs
import AuditChain.Bytes
/-!
# Little-endian numbers, bounded

`toLE` keeps a number modulo the range of its width, and what `ofLE` reads lies in that range.
-/

namespace AuditChain

theorem ofLE_toLE (w n : Nat) : ofLE (toLE w n) = n % 256 ^ w := by
  induction w generalizing n with
  | zero => simp [toLE, ofLE, Nat.mod_one]
  | succ w ih =>
    have h : (UInt8.ofNat n).toNat = n % 256 := UInt8.toNat_ofNat'
    rw [toLE, ofLE, ih, h, Nat.pow_succ', Nat.mod_mul]

theorem ofLE_lt (bs : Bytes) : ofLE bs < 256 ^ bs.length := by
  induction bs with
  | nil => simp [ofLE]
  | cons b bs ih =>
    have hb := b.toNat_lt
    rw [List.length_cons, ofLE, Nat.pow_succ]
    omega

end AuditChain
