import AuditChain.Script
/-!
# Transactions

Inputs spend outputs of earlier transactions, and the hash of a transaction's encoding is its id.
A coinbase creates coins and spends nothing; a coinstake spends a real output and marks itself with
an empty first output.
-/

namespace AuditChain

/-! ## Outpoints -/

/-- An output of a transaction, by its place. -/
@[ext] structure OutPoint where
  txid : Hash256
  vout : UInt32
deriving DecidableEq

namespace OutPoint

/-- The outpoint that stands for no output. -/
def null : OutPoint := ⟨0, 0xffffffff⟩

instance : Inhabited OutPoint := ⟨null⟩

def isNull (o : OutPoint) : Bool := o == null

def toText (o : OutPoint) : String := o.txid.toHex ++ ":" ++ toString o.vout.toNat

instance : Wire OutPoint where
  encode o := encode o.txid ++ encode o.vout
  read := do return ⟨← Wire.read, ← Wire.read⟩

end OutPoint

/-! ## Inputs and outputs -/

structure TxIn where
  prevout : OutPoint
  scriptSig : Script
  sequence : UInt32
deriving DecidableEq

instance : Wire TxIn where
  encode i := encode i.prevout ++ (encode i.scriptSig ++ encode i.sequence)
  read := do return ⟨← Wire.read, ← Wire.read, ← Wire.read⟩

structure TxOut where
  value : Int64
  script : Script
deriving DecidableEq

namespace TxOut

/-- No value and no script. -/
def isEmpty (o : TxOut) : Bool := o.value == 0 && o.script.isEmpty

instance : Wire TxOut where
  encode o := encode o.value ++ encode o.script
  read := do return ⟨← Wire.read, ← Wire.read⟩

end TxOut

/-! ## Transactions -/

structure Transaction where
  version : Int32
  inputs : List TxIn
  outputs : List TxOut
  lockTime : UInt32
deriving DecidableEq

/-- Why a transaction is malformed, whatever chain it is on. -/
inductive TransactionError where
  | noInputs
  | noOutputs
  | negativeValue (output : Nat)
  | nullPrevout (input : Nat)
deriving DecidableEq

def TransactionError.message : TransactionError → String
  | noInputs => "Transaction has no inputs"
  | noOutputs => "Transaction has no outputs"
  | negativeValue output => s!"Negative output value at index {output}"
  | nullPrevout input => s!"Null prevout in non-coinbase input {input}"

namespace Transaction

instance : Wire Transaction where
  encode tx :=
    encode tx.version ++ (encodeList encode tx.inputs ++ (encodeList encode tx.outputs ++ encode tx.lockTime))
  read := do return ⟨← Wire.read, ← readList Wire.read, ← readList Wire.read, ← Wire.read⟩

/-- The transaction id. -/
def hash (tx : Transaction) : Hash256 := hash256 (encode tx)

/-- The coinbase that pays `outputs`. The height keeps the coinbases of different blocks apart. -/
def coinbase (height : UInt32) (outputs : List TxOut) : Transaction where
  version := 1
  inputs := [⟨.null, ⟨Script.push (encode height)⟩, 0xffffffff⟩]
  outputs := outputs
  lockTime := 0

def isCoinbase (tx : Transaction) : Bool :=
  match tx.inputs with
  | [input] => input.prevout.isNull
  | _ => false

def isCoinstake (tx : Transaction) : Bool :=
  match tx.inputs, tx.outputs with
  | input :: _, marker :: _ :: _ => !input.prevout.isNull && marker.isEmpty
  | _, _ => false

/-- What can be checked of a transaction alone, reported for the first fault. -/
def checkStructure (tx : Transaction) : Except TransactionError Unit :=
  if tx.inputs.isEmpty then .error .noInputs
  else if tx.outputs.isEmpty then .error .noOutputs
  else
    match tx.outputs.findIdx? (·.value < 0) with
    | some i => .error (.negativeValue i)
    | none =>
      if tx.isCoinbase then .ok ()
      else
        match tx.inputs.findIdx? (·.prevout.isNull) with
        | some i => .error (.nullPrevout i)
        | none => .ok ()

end Transaction

end AuditChain
