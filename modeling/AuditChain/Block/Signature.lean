import AuditChain.Block.Signer
import AuditChain.SignatureCache
/-!
# Block signatures

Stake and audit blocks carry a signature over their hash by the key that they name; work blocks
carry none. Checking with a cache always finds the signer anew and skips only the cryptographic
check of a signature that is remembered.
-/

namespace AuditChain

inductive SignatureError where
  | unexpectedSignature (length : Nat)
  | emptySignature (kind : Block.Kind)
  | keyNotFound (reason : RecoveryError)
  | mismatch
  | signing (error : KeyError)
  | missingKey (id : KeyId)
  | layout (fault : LayoutFault)
deriving DecidableEq

namespace SignatureError

/-- A fault of the header is reported in full, a misplaced signature by its reason alone. -/
def layoutMessage : LayoutFault → String
  | .signatureWithoutCoinstake => LayoutFault.signatureWithoutCoinstake.reason
  | fault => fault.message

def message : SignatureError → String
  | unexpectedSignature length => s!"Proof-of-work block carries a {length}-byte signature"
  | emptySignature kind => kind.name ++ " block signature is empty"
  | keyNotFound reason => "Signer key not found: " ++ reason.message
  | mismatch => "Block signature does not verify against signer key"
  | signing error => "Failed to sign block hash: " ++ error.message
  | missingKey id => "Key " ++ id.toHex ++ " not in keystore"
  | layout fault => "Block layout is inconsistent: " ++ layoutMessage fault

end SignatureError

/-! ## Signing -/

/-- Key pairs by the id of their public key. -/
abbrev KeyStore := KeyId → Option KeyPair

/-- The store of the given key pairs; the last of those with one id counts. -/
def KeyStore.ofKeys (keys : List KeyPair) : KeyStore := fun id =>
  keys.reverse.find? fun key => key.publicKey.id == id

namespace Block

/-- The block with a signature of its hash, or the block as it was and the reason. -/
def signWith (signer : MessageSigner) (key : KeyPair) (b : Block) : Except SignatureError Unit × Block :=
  match b.header.checkLayout with
  | .error fault => (.error (.layout fault), b)
  | .ok () =>
    if b.kind.requiresSignature && !b.hasCoinstake then (.error (.layout .signatureWithoutCoinstake), b)
    else
      match signer.sign b.hash key with
      | .ok signature => (.ok (), { b with signature := signature })
      | .error e => (.error (.signing e), b)

def sign (key : KeyPair) (b : Block) : Except SignatureError Unit × Block := b.signWith .ed25519 key

/-- The id of the key that the designated output lets sign. Only the staker of a cold stake signs. -/
def signingId (classify : Script.Classifier) (b : Block) : Except RecoveryError KeyId := do
  match ← b.designated classify with
  | .payToKey key => return key.id
  | .payToKeyId id => return id
  | .coldStake staker _ => return staker
  | kind => throw (.unsupported kind)

/-- Signs with the key that the designated output names, taken from a store. A work block is left
without a signature. -/
def signFromStore (classify : Script.Classifier) (store : KeyStore) (b : Block) : Except SignatureError Unit × Block :=
  if b.kind = .work then (.ok (), { b with signature := [] })
  else
    match b.signingId classify with
    | .error reason => (.error (.keyNotFound reason), b)
    | .ok id =>
      match store id with
      | none => (.error (.missingKey id), b)
      | some key => b.sign key

/-! ## Checking -/

/-- All checks but the cryptographic one. Gives the signer, or `none` for a work block without a
signature. -/
def expectedSigner (classify : Script.Classifier) (b : Block) : Except SignatureError (Option PublicKey) :=
  match b.header.checkLayout with
  | .error fault => .error (.layout fault)
  | .ok () =>
    if !b.kind.requiresSignature then
      if b.signature.isEmpty then .ok none else .error (.unexpectedSignature b.signature.length)
    else if b.signature.isEmpty then .error (.emptySignature b.kind)
    else if !b.hasCoinstake then .error (.layout .signatureWithoutCoinstake)
    else
      match b.recoverSigner classify with
      | .error reason => .error (.keyNotFound reason)
      | .ok key => .ok (some key)

def verifyWith (key : PublicKey) (b : Block) : Except SignatureError Unit :=
  match key.verify b.hash.toList b.signature with
  | .ok () => .ok ()
  | .error _ => .error .mismatch

/-- The signature is that of the signer whom the block names. -/
def checkSignature (classify : Script.Classifier) (b : Block) : Except SignatureError Unit :=
  match b.expectedSigner classify with
  | .error e => .error e
  | .ok none => .ok ()
  | .ok (some key) => b.verifyWith key

/-- Checks the signature against a cache, and puts it there when it verifies. -/
def checkSignatureCached (classify : Script.Classifier) (cache : SignatureCache) (b : Block) :
    Except SignatureError Unit × SignatureCache :=
  match b.expectedSigner classify with
  | .error e => (.error e, cache)
  | .ok none => (.ok (), cache)
  | .ok (some key) =>
    match cache.contains b.hash b.signature key with
    | (true, cache) => (.ok (), cache)
    | (false, cache) =>
      match b.verifyWith key with
      | .ok () => (.ok (), cache.insert b.hash b.signature key)
      | .error e => (.error e, cache)

/-- Checks the signature, with a cache if there is one. -/
def verify (classify : Script.Classifier) (cache : Option SignatureCache) (b : Block) :
    Except SignatureError Unit × Option SignatureCache :=
  match cache with
  | none => (b.checkSignature classify, none)
  | some cache =>
    let (result, cache) := b.checkSignatureCached classify cache
    (result, some cache)

end Block

end AuditChain
