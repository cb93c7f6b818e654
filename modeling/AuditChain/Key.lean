import AuditChain.Ed25519
import AuditChain.Hash
import AuditChain.Text
/-!
# Keys and signers

Public keys are kept as the bytes they came in and may be unusable; a key pair is its 32-byte
secret. A `MessageSigner` signs and verifies hashes, and may fail to sign.
-/

namespace AuditChain

inductive KeyError where
  | invalidSignature
  | invalidPublicKey
  | invalidPrivateKey
  | signingFailed (reason : String)
deriving DecidableEq

namespace KeyError

def message : KeyError → String
  | invalidSignature => "Invalid signature"
  | invalidPublicKey => "Invalid public key"
  | invalidPrivateKey => "Invalid private key"
  | signingFailed reason => "Signing failed: " ++ reason

end KeyError

/-! ## Public keys -/

structure PublicKey where
  bytes : Bytes
deriving DecidableEq

namespace PublicKey

/-- The length of a usable key. -/
abbrev size : Nat := 32

/-- The length of a signature. -/
abbrev signatureSize : Nat := 64

/-- The first twenty bytes of the SHA-256 of the key. -/
def id (key : PublicKey) : KeyId :=
  FixedBytes.takeFrom (Sha2.sha256 key.bytes).toList (by rw [FixedBytes.length_toList]; decide)

def toHex (key : PublicKey) : String := Hex.encode key.bytes

/-- The key as a point of the curve, if it has the length of one and names one. -/
def point? (key : PublicKey) : Option (FixedBytes size) :=
  (FixedBytes.ofList? size key.bytes).filter Ed25519.isPoint

def isValid (key : PublicKey) : Bool := key.point?.isSome

/-- Strict verification. An unusable key is reported before an unusable signature. -/
def verify (key : PublicKey) (message signature : Bytes) : Except KeyError Unit :=
  match key.point?, FixedBytes.ofList? signatureSize signature with
  | none, _ => .error .invalidPublicKey
  | some _, none => .error .invalidSignature
  | some point, some signature =>
    if Ed25519.verify point message signature then .ok () else .error .invalidSignature

end PublicKey

/-! ## Key pairs -/

/-- A key pair, given by its secret. -/
structure KeyPair where
  secret : FixedBytes 32
deriving DecidableEq

namespace KeyPair

def publicKey (key : KeyPair) : PublicKey := ⟨(Ed25519.publicKey key.secret).toList⟩

def sign (key : KeyPair) (message : Bytes) : Bytes := (Ed25519.sign key.secret message).toList

/-- The secret in hexadecimal. -/
def secretHex (key : KeyPair) : String := key.secret.toHex

/-- Reads a secret in hexadecimal, with blanks around it allowed. -/
def ofSecretHex (text : String) : Except KeyError KeyPair :=
  match FixedBytes.ofHex? 32 (String.ofList (Text.trim text.toList)) with
  | some secret => .ok ⟨secret⟩
  | none => .error .invalidPrivateKey

/-- A description that does not show the secret. -/
def describe (key : KeyPair) : String :=
  "KeyPair \x7b public_key: PublicKey(" ++ key.publicKey.toHex ++ "), .. \x7d"

end KeyPair

/-! ## Signers -/

/-- Something that signs hashes with a key pair and checks such signatures. -/
structure MessageSigner where
  sign : Hash256 → KeyPair → Except KeyError Bytes
  verify : (hash : Hash256) → (signature : Bytes) → PublicKey → Except KeyError Unit

namespace MessageSigner

def ed25519 : MessageSigner where
  sign hash key := .ok (key.sign hash.toList)
  verify hash signature key := key.verify hash.toList signature

/-- Verifies as usual and never signs. -/
def failing (error : KeyError) : MessageSigner := { ed25519 with sign := fun _ _ => .error error }

end MessageSigner

end AuditChain
