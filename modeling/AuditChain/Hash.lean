import AuditChain.Hash.Sha3
import AuditChain.Hex
/-!
# Hashes

The chain hashes with SHA3-256 applied twice. A `Hash256` names a transaction or a block, a `KeyId`
names a public key.
-/

namespace AuditChain

abbrev Hash256 := FixedBytes 32

abbrev KeyId := FixedBytes 20

/-- SHA3-256 of the SHA3-256 of `bs`. -/
def hash256 (bs : Bytes) : Hash256 := Sha3.digest (Sha3.digest bs).toList

/-- The hash of two hashes, one after the other. -/
def hashPair (left right : Hash256) : Hash256 := hash256 (left.toList ++ right.toList)

namespace FixedBytes

variable {n : Nat}

def toHex (b : FixedBytes n) : String := Hex.encode b.toList

def ofHex? (n : Nat) (text : String) : Option (FixedBytes n) := (Hex.decode? text).bind (ofList? n)

@[simp] theorem ofHex?_toHex (b : FixedBytes n) : ofHex? n b.toHex = some b := by
  simp [ofHex?, toHex]

end FixedBytes

end AuditChain
