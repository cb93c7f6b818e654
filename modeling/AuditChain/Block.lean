import AuditChain.Header
import AuditChain.Merkle
import AuditChain.Transaction
/-!
# Blocks

Blocks of three kinds share one chain. An audit version makes an audit block; otherwise a coinstake
in second place makes a stake block; every other block is a work block. A signature has a place on
the wire only if the second transaction is a coinstake, and summaries of audited blocks only in an
audit block.
-/

namespace AuditChain

/-! ## Kinds and parts -/

inductive Block.Kind where
  | work
  | stake
  | audit
deriving DecidableEq

namespace Block.Kind

def requiresSignature : Kind → Bool
  | work => false
  | _ => true

def name : Kind → String
  | work => "proof-of-work"
  | stake => "proof-of-stake"
  | audit => "proof-of-audit"

end Block.Kind

/-- What an audit block says of a block it audits. -/
structure Summary where
  hash : Hash256
  time : UInt32
  height : UInt32
deriving DecidableEq

namespace Summary

instance : Wire Summary where
  encode s := encode s.hash ++ (encode s.time ++ encode s.height)
  read := do return ⟨← Wire.read, ← Wire.read, ← Wire.read⟩

/-- The summary's leaf in the audit tree. -/
def leafHash (s : Summary) : Hash256 := hash256 (encode s)

end Summary

structure Block where
  header : Header
  transactions : List Transaction
  signature : Bytes
  summaries : List Summary
deriving DecidableEq

namespace Block

def maxSizeCurrent : Nat := 2000000
def maxSizeLegacy : Nat := 1000000

def hash (b : Block) : Hash256 := b.header.hash

def coinbase? (b : Block) : Option Transaction := b.transactions[0]?

/-- The second transaction, if it is a coinstake. -/
def coinstake? (b : Block) : Option Transaction := b.transactions[1]?.filter (·.isCoinstake)

def hasCoinstake (b : Block) : Bool := b.coinstake?.isSome

def kind (b : Block) : Kind := if b.header.isAudit then .audit else if b.hasCoinstake then .stake else .work

/-- The staked outpoint and the block time of a stake block. -/
def proofOfStake? (b : Block) : Option (OutPoint × UInt32) :=
  if b.kind = .stake then do
    let stake ← b.coinstake?
    let input ← stake.inputs.head?
    return (input.prevout, b.header.time)
  else none

/-! ## The wire format -/

/-- The signature, in a block that has a place for it. -/
def encodeSignature (b : Block) : Except LayoutFault Bytes :=
  if b.hasCoinstake then .ok (encodeBytes b.signature)
  else if b.signature.isEmpty then .ok []
  else .error .signatureWithoutCoinstake

/-- The summaries, in a block that has a place for them. -/
def encodeSummaries (b : Block) : Except LayoutFault Bytes :=
  if b.header.isAudit then .ok (encodeList encode b.summaries)
  else if b.summaries.isEmpty then .ok []
  else .error .summariesOutsideAudit

def encode (b : Block) : Except LayoutFault Bytes := do
  let header ← b.header.encode
  let signature ← b.encodeSignature
  let summaries ← b.encodeSummaries
  return header ++ (encodeList AuditChain.encode b.transactions ++ (signature ++ summaries))

/-- The header and the transactions say which fields follow them. -/
def read : Reader Block := do
  let header ← Header.read
  let transactions ← readList Wire.read
  let bare : Block := ⟨header, transactions, [], []⟩
  let signature ← if bare.hasCoinstake then readBytes else pure []
  let summaries ← if header.isAudit then readList Wire.read else pure []
  return ⟨header, transactions, signature, summaries⟩

def size (b : Block) : Except LayoutFault Nat := b.encode.map List.length

/-! ## Commitments -/

def merkleTree (b : Block) : Merkle.Tree := .ofLeaves (b.transactions.map Transaction.hash)

def auditTree (b : Block) : Merkle.Tree := .ofLeaves (b.summaries.map Summary.leafHash)

/-- The audit header with the root over the summaries and the mined hash that goes with it. -/
def commitAudit (b : Block) (h : Header) : Header :=
  let commitment := { h.audit.getD default with auditRoot := b.auditTree.root }
  -- The mined hash covers the new root.
  let committed := { h with audit := some commitment }
  { committed with audit := committed.minedHash?.map fun mined => { commitment with minedHash := mined } }

/-- Writes the merkle root, and in an audit block the audit root and the mined hash, into the header. -/
def updateCommitments (b : Block) : Block :=
  let header := { b.header with merkleRoot := b.merkleTree.root }
  { b with header := if header.isAudit then b.commitAudit header else header }

/-! ## Checks -/

inductive CheckError where
  | noTransactions
  | invalidCoinbase
  | merkleMismatch (header computed : Hash256)
  | mutatedMerkleTree
  | missingCommitment
  | auditMerkleMismatch (header computed : Hash256)
  | mutatedAuditTree
  | auditOrder (previous height : UInt32)
  | minedHashMismatch
  | unexpectedSummaries
  | oversized (size limit : Nat)
  | unencodable (fault : LayoutFault)
  | transaction (error : TransactionError)
deriving DecidableEq

def CheckError.message : CheckError → String
  | noTransactions => "Block has no transactions"
  | invalidCoinbase => "Invalid coinbase transaction"
  | merkleMismatch header computed =>
    "Merkle root mismatch: header " ++ header.toHex ++ ", computed " ++ computed.toHex
  | mutatedMerkleTree => "Duplicate transaction hashes in merkle tree"
  | missingCommitment => "Audit commitment missing from audit header"
  | auditMerkleMismatch header computed =>
    "Audit merkle root mismatch: header " ++ header.toHex ++ ", computed " ++ computed.toHex
  | mutatedAuditTree => "Duplicate audited block summaries"
  | auditOrder previous height =>
    s!"Audited blocks out of order at height {height.toNat} (previous {previous.toNat})"
  | minedHashMismatch => "Mined hash does not match header fields"
  | unexpectedSummaries => "Audit summaries present in a non-audit block"
  | oversized size limit => s!"Block size {size} exceeds limit {limit}"
  | unencodable fault => "Block cannot be encoded: " ++ fault.message
  | transaction error => "Transaction error: " ++ error.message

/-- Checks every transaction of a list, in order. -/
def checkTransactions : List Transaction → Except CheckError Unit
  | [] => .ok ()
  | tx :: rest =>
    match tx.checkStructure with
    | .error e => .error (.transaction e)
    | .ok () => checkTransactions rest

/-- The first transaction is the only coinbase, and every transaction is well formed. -/
def checkStructure (b : Block) : Except CheckError Unit :=
  match b.transactions with
  | [] => .error .noTransactions
  | first :: rest =>
    if !first.isCoinbase || rest.any (·.isCoinbase) then .error .invalidCoinbase
    else checkTransactions b.transactions

def checkMerkleRoot (b : Block) : Except CheckError Unit :=
  let tree := b.merkleTree
  if tree.root ≠ b.header.merkleRoot then .error (.merkleMismatch b.header.merkleRoot tree.root)
  else if tree.mutated then .error .mutatedMerkleTree
  else .ok ()

/-- The heights ascend strictly; otherwise the first two that do not are reported. -/
def checkOrder : List Summary → Except CheckError Unit
  | s :: t :: rest => if t.height ≤ s.height then .error (.auditOrder s.height t.height) else checkOrder (t :: rest)
  | _ => .ok ()

/-- An audit header's roots and mined hash agree with the block; no other block has summaries. -/
def checkAudit (b : Block) : Except CheckError Unit :=
  if !b.header.isAudit then
    if b.summaries.isEmpty then .ok () else .error .unexpectedSummaries
  else
    match b.header.audit with
    | none => .error .missingCommitment
    | some commitment => do
      checkOrder b.summaries
      let tree := b.auditTree
      if tree.root ≠ commitment.auditRoot then throw (.auditMerkleMismatch commitment.auditRoot tree.root)
      if tree.mutated then throw .mutatedAuditTree
      if b.header.minedHash? ≠ some commitment.minedHash then throw .minedHashMismatch

def checkSize (b : Block) (limit : Nat) : Except CheckError Unit :=
  match b.size with
  | .error fault => .error (.unencodable fault)
  | .ok size => if limit < size then .error (.oversized size limit) else .ok ()

end Block

end AuditChain
