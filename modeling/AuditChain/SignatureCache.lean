import AuditChain.Key
/-!
# The signature cache

Remembers signatures that verified, for a block hash, a signature and a signer. It holds a bounded
number of entries, the most recently used first, and drops the least recently used one. An audit
block's hash does not cover its transactions, so the hash alone cannot stand for the signer.
-/

namespace AuditChain

structure SignatureCache where
  capacity : Nat
  /-- The entries, the most recently used first. -/
  recent : List Hash256
deriving DecidableEq

namespace SignatureCache

def defaultCapacity : Nat := 4096

/-- An empty cache. A capacity of zero counts as one. -/
def new (capacity : Nat) : SignatureCache := ⟨max capacity 1, []⟩

/-- What is hashed into an entry: the parts that vary in length come after their lengths. -/
def entryBytes (hash : Hash256) (signature : Bytes) (signer : PublicKey) : Bytes :=
  hash.toList ++ (toLE 4 signature.length ++ (signature ++ (toLE 4 signer.bytes.length ++ signer.bytes)))

def entry (hash : Hash256) (signature : Bytes) (signer : PublicKey) : Hash256 :=
  hash256 (entryBytes hash signature signer)

/-- Makes an entry the most recent one, and drops the oldest if there is one too many. -/
def touch (c : SignatureCache) (key : Hash256) : SignatureCache :=
  { c with recent := (key :: c.recent.erase key).take c.capacity }

def insert (c : SignatureCache) (hash : Hash256) (signature : Bytes) (signer : PublicKey) : SignatureCache :=
  c.touch (entry hash signature signer)

/-- Looks an entry up; finding it makes it the most recent one. -/
def contains (c : SignatureCache) (hash : Hash256) (signature : Bytes) (signer : PublicKey) : Bool × SignatureCache :=
  let key := entry hash signature signer
  if key ∈ c.recent then (true, c.touch key) else (false, c)

def size (c : SignatureCache) : Nat := c.recent.length

end SignatureCache

end AuditChain
