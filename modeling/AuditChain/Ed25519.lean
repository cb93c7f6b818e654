import AuditChain.Hash.Sha2
import AuditChain.Ed25519.Curve
/-!
# Ed25519 signatures

Deterministic signing from a 32-byte seed, and strict verification: the key and the point of the
signature must decompress and must not have small order, the scalar must be reduced, and the point
that the equation gives must have exactly the bytes that the signature carries.
-/

namespace AuditChain.Ed25519

/-- A hash read as a scalar, modulo the order of the base point. -/
def scalarOf (bs : Bytes) : Nat := ofLE (Sha2.sha512 bs).toList % order

/-- The secret scalar of a seed: half of its hash, with the low three bits and the top bit cleared
and the bit below the top set. -/
def secretScalar (seed : FixedBytes 32) : Nat :=
  let n := ofLE ((Sha2.sha512 seed.toList).toList.take 32)
  let high := 1 <<< 254
  n % high / 8 * 8 + high

/-- The other half of the seed's hash, which makes the nonces. -/
def noncePrefix (seed : FixedBytes 32) : Bytes := (Sha2.sha512 seed.toList).toList.drop 32

def publicKey (seed : FixedBytes 32) : FixedBytes 32 :=
  (Point.base.scale (secretScalar seed)).compress

def sign (seed : FixedBytes 32) (message : Bytes) : FixedBytes 64 :=
  let key := publicKey seed
  let nonce := scalarOf (noncePrefix seed ++ message)
  let point := (Point.base.scale nonce).compress
  let challenge := scalarOf (point.toList ++ (key.toList ++ message))
  let response := (nonce + challenge * secretScalar seed) % order
  ⟨point.toList ++ toLE 32 response, by simp [point.length_toList]⟩

/-- The bytes of a key name a point of the curve. -/
def isPoint (key : FixedBytes 32) : Bool := (Point.decompress key).isSome

def verify (key : FixedBytes 32) (message : Bytes) (signature : FixedBytes 64) : Bool :=
  let commitment : FixedBytes 32 := ⟨signature.toList.take 32, by simp [signature.length_toList]⟩
  let response := ofLE (signature.toList.drop 32)
  match Point.decompress key, Point.decompress commitment with
  | some a, some r =>
    if response < order && !a.isSmallOrder && !r.isSmallOrder then
      let challenge := scalarOf (commitment.toList ++ (key.toList ++ message))
      ((Point.base.scale response).add (a.neg.scale challenge)).compress == commitment
    else false
  | _, _ => false

end AuditChain.Ed25519
