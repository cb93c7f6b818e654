import AuditChain.Block
/-!
# The signer of a block

A block names its own signer: one output commits to a key or to its hash, and where it commits to a
hash, the unlocking script of the coinstake's first input shows the key.
-/

namespace AuditChain

/-- Why a block names no signer. -/
inductive RecoveryError where
  | noDesignatedOutput
  | noStakeInput
  | unsupported (kind : Script.Kind)
  | signatureOnly
  | malformed
  | keyMismatch
  | invalidKey (key : PublicKey)
deriving DecidableEq

def RecoveryError.message : RecoveryError → String
  | noDesignatedOutput => "no designated output"
  | noStakeInput => "coinstake has no input"
  | unsupported kind => "unsupported script type " ++ kind.name
  | signatureOnly => "unlocking script carries no key"
  | malformed => "malformed unlocking script"
  | keyMismatch => "embedded key does not match output"
  | invalidKey key => "invalid pubkey " ++ key.toHex

/-! ## Keys in unlocking scripts -/

namespace Script

/-- Skips a length byte and that many bytes. What follows must have room for a length byte and at
least one byte of a key. -/
def skipPush : Bytes → Except RecoveryError Bytes
  | [] => .error .malformed
  | n :: rest =>
    let after := rest.drop n.toNat
    if after.length < 2 then .error .malformed else .ok after

/-- The key behind a length byte that is not looked at. -/
def trailingKey (bs : Bytes) : PublicKey := ⟨bs.drop 1⟩

/-- The key behind a signature. -/
def keyAfterSignature (s : Script) : Except RecoveryError PublicKey :=
  match s.bytes with
  | [] => .error .malformed
  | n :: rest =>
    if rest.length ≤ n.toNat then .error .signatureOnly
    else (skipPush s.bytes).map trailingKey

/-- The key behind a signature and a flag. -/
def keyAfterFlag (s : Script) : Except RecoveryError PublicKey := do
  let afterSignature ← skipPush s.bytes
  let afterFlag ← skipPush afterSignature
  return trailingKey afterFlag

/-- The key that a mint is spent with. -/
def keyOfMint (s : Script) : Except RecoveryError PublicKey :=
  match s.bytes with
  | op :: n :: rest =>
    if op = Op.spendMint ∧ n.toNat ≤ rest.length then .ok ⟨rest.take n.toNat⟩ else .error .malformed
  | _ => .error .malformed

end Script

namespace Block

/-! ## The designated output -/

/-- The first output with a locking script that the classifier knows. -/
def firstStandard (classify : Script.Classifier) (outputs : List TxOut) : Option Script.Kind :=
  outputs.findSome? fun output =>
    let kind := classify output.script
    if kind = .nonStandard then none else some kind

/-- What the output that names the signer commits to: the coinstake's second output, or without a
coinstake the coinbase's first standard output. -/
def designated (classify : Script.Classifier) (b : Block) : Except RecoveryError Script.Kind :=
  match b.coinstake? with
  | some stake =>
    match stake.outputs[1]? with
    | some output => .ok (classify output.script)
    | none => .error .noDesignatedOutput
  | none =>
    match b.coinbase?.bind fun coinbase => firstStandard classify coinbase.outputs with
    | some kind => .ok kind
    | none => .error .noDesignatedOutput

/-- The script that unlocks the staked output. -/
def stakeScript (b : Block) : Except RecoveryError Script :=
  match b.coinstake?.bind (·.inputs.head?) with
  | some input => .ok input.scriptSig
  | none => .error .noStakeInput

/-- The key, if it is one that the output commits to. -/
def matching (key : PublicKey) (committed : Bool) : Except RecoveryError PublicKey :=
  if committed then .ok key else .error .keyMismatch

/-- The key that an output of the given kind asks for, taken from the block. -/
def namedKey (b : Block) : Script.Kind → Except RecoveryError PublicKey
  | .payToKey key => .ok key
  | .payToKeyId id => do
    let key ← (← b.stakeScript).keyAfterSignature
    matching key (key.id == id)
  | .coldStake staker owner => do
    let key ← (← b.stakeScript).keyAfterFlag
    matching key (key.id == staker || key.id == owner)
  | .mint serial => do
    let key ← (← b.stakeScript).keyOfMint
    matching key (hash256 key.bytes == serial)
  | .nonStandard => .error (.unsupported .nonStandard)

/-- The key that is entitled to sign the block. -/
def recoverSigner (classify : Script.Classifier) (b : Block) : Except RecoveryError PublicKey := do
  let kind ← b.designated classify
  let key ← b.namedKey kind
  if key.isValid then return key else throw (.invalidKey key)

end Block

end AuditChain
