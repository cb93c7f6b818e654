import AuditChain.Wire
/-!
# Block headers

A version of `auditVersion` or more makes an audit header, which carries a commitment: the link to
the previous audit block, the root over the blocks it audits, and the hash that was mined before the
link was known. An audit header is named by its mined hash and its link, any other header by the
hash of its fields.
-/

namespace AuditChain

/-! ## Versions and layout -/

def currentVersion : Int32 := 5

/-- The lowest version of an audit header. -/
def auditVersion : Int32 := 100

def isAuditVersion (version : Int32) : Bool := auditVersion ≤ version

/-- Parts of a block that do not fit its kind, so that the block has no encoding. -/
inductive LayoutFault where
  | missingCommitment (version : Int32)
  | unexpectedCommitment (version : Int32)
  | signatureWithoutCoinstake
  | summariesOutsideAudit
deriving DecidableEq

namespace LayoutFault

def reason : LayoutFault → String
  | missingCommitment version => s!"audit version {version.toInt} without audit commitment"
  | unexpectedCommitment version => s!"version {version.toInt} carries an audit commitment"
  | signatureWithoutCoinstake => "signature on a block without coinstake"
  | summariesOutsideAudit => "audited blocks on a non-audit block"

def message (fault : LayoutFault) : String := "Layout mismatch: " ++ fault.reason

end LayoutFault

/-! ## Mining an audit header -/

/-- What an audit header carries beside the fields of every header. -/
structure Commitment where
  /-- Names the previous audit block; audit blocks form a chain of their own. -/
  prevAudit : Hash256
  /-- The root over the summaries of the audited blocks. -/
  auditRoot : Hash256
  /-- The hash found before `prevAudit` was known. -/
  minedHash : Hash256
deriving DecidableEq

instance : Inhabited Commitment := ⟨⟨0, 0, 0⟩⟩

/-- The fields of an audit header that its miner knows without the link. -/
structure Candidate where
  version : Int32
  prevBlock : Hash256
  merkleRoot : Hash256
  auditRoot : Hash256
  time : UInt32
  bits : UInt32
  nonce : UInt32
deriving DecidableEq

namespace Candidate

def toBytes (c : Candidate) : Bytes :=
  encode c.version ++ (encode c.prevBlock ++ (encode c.merkleRoot ++ (encode c.auditRoot ++
    (encode c.time ++ (encode c.bits ++ encode c.nonce)))))

/-- The hash that is mined. -/
def mine (c : Candidate) : Hash256 := hash256 c.toBytes

end Candidate

/-- The name of an audit block, from its mined hash and its link. -/
def finalizeHash (minedHash prevAudit : Hash256) : Hash256 := hashPair minedHash prevAudit

/-! ## Headers -/

structure Header where
  version : Int32
  prevBlock : Hash256
  merkleRoot : Hash256
  audit : Option Commitment
  time : UInt32
  bits : UInt32
  nonce : UInt32
deriving DecidableEq

namespace Header

instance : Inhabited Header := ⟨⟨currentVersion, 0, 0, none, 0, 0, 0⟩⟩

def isAudit (h : Header) : Bool := isAuditVersion h.version

/-- A header whose target is zero stands for no header. -/
def isNull (h : Header) : Bool := h.bits == 0

/-- Makes the header an audit header, with an empty commitment if it had none. -/
def toAudit (h : Header) : Header := { h with version := auditVersion, audit := some (h.audit.getD default) }

def candidate? (h : Header) : Option Candidate :=
  h.audit.map fun c => ⟨h.version, h.prevBlock, h.merkleRoot, c.auditRoot, h.time, h.bits, h.nonce⟩

/-- The mined hash that the header's other fields give. -/
def minedHash? (h : Header) : Option Hash256 := h.candidate?.map Candidate.mine

/-- A commitment is there just when the version is an audit version. -/
def checkLayout (h : Header) : Except LayoutFault Unit :=
  match h.isAudit, h.audit with
  | true, none => .error (.missingCommitment h.version)
  | false, some _ => .error (.unexpectedCommitment h.version)
  | _, _ => .ok ()

/-- The fields of every header. -/
def baseBytes (h : Header) : Bytes :=
  encode h.version ++ (encode h.prevBlock ++ (encode h.merkleRoot ++ (encode h.time ++
    (encode h.bits ++ encode h.nonce))))

/-- The name of the block. -/
def hash (h : Header) : Hash256 :=
  match h.isAudit, h.audit with
  | true, some c => finalizeHash c.minedHash c.prevAudit
  | _, _ => hash256 h.baseBytes

instance : Wire Commitment where
  encode c := encode c.prevAudit ++ (encode c.auditRoot ++ encode c.minedHash)
  read := do return ⟨← Wire.read, ← Wire.read, ← Wire.read⟩

def encode (h : Header) : Except LayoutFault Bytes := do
  h.checkLayout
  let commitment := match h.audit with
    | some c => AuditChain.encode c
    | none => []
  return AuditChain.encode h.version ++ (AuditChain.encode h.prevBlock ++ (AuditChain.encode h.merkleRoot ++
    (commitment ++ (AuditChain.encode h.time ++ (AuditChain.encode h.bits ++ AuditChain.encode h.nonce)))))

/-- The version says whether a commitment follows. -/
def read : Reader Header := do
  let version ← Wire.read
  let prevBlock ← Wire.read
  let merkleRoot ← Wire.read
  let audit ← if isAuditVersion version then some <$> Wire.read else pure none
  return ⟨version, prevBlock, merkleRoot, audit, ← Wire.read, ← Wire.read, ← Wire.read⟩

end Header

end AuditChain
