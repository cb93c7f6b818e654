import AuditChain.Key
import AuditChain.Wire
/-!
# Scripts

Scripts are byte strings. The templates below are the locking scripts that can name the signer of a
block and the unlocking scripts that go with them. `Script.Kind.of` tells which locking template a
script is an instance of, with the key material in it.
-/

namespace AuditChain

structure Script where
  bytes : Bytes
deriving DecidableEq

namespace Script

def empty : Script := ⟨[]⟩

instance : Inhabited Script := ⟨empty⟩

def isEmpty (s : Script) : Bool := s.bytes.isEmpty

/-- The script's bytes in hexadecimal, with its type. -/
def describe (s : Script) : String := "Script(" ++ Hex.encode s.bytes ++ ")"

instance : Wire Script where
  encode s := encodeBytes s.bytes
  read := do return ⟨← readBytes⟩

/-! ## Opcodes and pushes -/

namespace Op

def zero : UInt8 := 0x00
def pushData1 : UInt8 := 0x4c
def pushData2 : UInt8 := 0x4d
def one : UInt8 := 0x51
def ifTrue : UInt8 := 0x63
def otherwise : UInt8 := 0x67
def endIf : UInt8 := 0x68
def dup : UInt8 := 0x76
def rot : UInt8 := 0x7b
def equalVerify : UInt8 := 0x88
def hash160 : UInt8 := 0xa9
def checkSig : UInt8 := 0xac
/-- Marks an output of the mint protocol. -/
def mint : UInt8 := 0xc1
/-- Starts an unlocking script that spends a mint. -/
def spendMint : UInt8 := 0xc2
def checkColdStake : UInt8 := 0xd1

end Op

/-- `data` after its length: a single byte up to 75 bytes, otherwise an opcode with one or two bytes.
Two bytes hold the length modulo `2 ^ 16`. -/
def push (data : Bytes) : Bytes :=
  if data.length ≤ 0x4b then toLE 1 data.length ++ data
  else if data.length ≤ 0xff then Op.pushData1 :: (toLE 1 data.length ++ data)
  else Op.pushData2 :: (toLE 2 data.length ++ data)

/-! ## Locking templates -/

def payToKey (key : PublicKey) : Script := ⟨push key.bytes ++ [Op.checkSig]⟩

def payToKeyId (id : KeyId) : Script :=
  ⟨[Op.dup, Op.hash160] ++ push id.toList ++ [Op.equalVerify, Op.checkSig]⟩

/-- `staker` may stake the output and `owner` may spend it. -/
def coldStake (staker owner : KeyId) : Script :=
  ⟨[Op.dup, Op.hash160, Op.rot, Op.ifTrue, Op.checkColdStake] ++ push staker.toList ++ [Op.otherwise] ++
    push owner.toList ++ [Op.endIf, Op.equalVerify, Op.checkSig]⟩

/-- A mint whose serial is the hash of the key that spends it. -/
def mint (key : PublicKey) : Script := ⟨Op.mint :: push (hash256 key.bytes).toList⟩

/-! ## Unlocking templates -/

def unlockKeyId (signature : Bytes) (key : PublicKey) : Script := ⟨push signature ++ push key.bytes⟩

/-- The flag chooses between the staker's branch and the owner's. -/
def unlockColdStake (signature : Bytes) (stakerBranch : Bool) (key : PublicKey) : Script :=
  ⟨push signature ++ (if stakerBranch then push [1] else [Op.zero]) ++ push key.bytes⟩

def spendMint (key : PublicKey) (proof : Bytes) : Script := ⟨Op.spendMint :: (push key.bytes ++ push proof)⟩

/-! ## Recognising the locking templates -/

/-- What a locking script commits to. -/
inductive Kind where
  | payToKey (key : PublicKey)
  | payToKeyId (id : KeyId)
  | coldStake (staker owner : KeyId)
  | mint (serial : Hash256)
  | nonStandard
deriving DecidableEq

namespace Kind

def name : Kind → String
  | payToKey _ => "pubkey"
  | payToKeyId _ => "pubkeyhash"
  | coldStake _ _ => "coldstake"
  | mint _ => "legacyspend"
  | nonStandard => "nonstandard"

/-- The `n` bytes between `head` and `tail`, if the bytes are just those three parts. -/
def between (head : Bytes) (n : Nat) (tail bs : Bytes) : Option (FixedBytes n) :=
  if bs.take head.length = head ∧ bs.drop (head.length + n) = tail then
    FixedBytes.ofList? n ((bs.drop head.length).take n)
  else none

def payToKey? (bs : Bytes) : Option Kind :=
  (between [32] 32 [Op.checkSig] bs).map fun key => payToKey ⟨key.toList⟩

def payToKeyId? (bs : Bytes) : Option Kind :=
  (between [Op.dup, Op.hash160, 20] 20 [Op.equalVerify, Op.checkSig] bs).map payToKeyId

def coldStake? (bs : Bytes) : Option Kind := do
  let ids ← between [Op.dup, Op.hash160, Op.rot, Op.ifTrue, Op.checkColdStake, 20] 42
    [Op.endIf, Op.equalVerify, Op.checkSig] bs
  let staker ← FixedBytes.ofList? 20 (ids.toList.take 20)
  let owner ← between [Op.otherwise, 20] 20 [] (ids.toList.drop 20)
  return coldStake staker owner

def mint? (bs : Bytes) : Option Kind := (between [Op.mint, 32] 32 [] bs).map mint

/-- The template that a script is an instance of. Without `extended`, only payments to a key and to a
key's id are recognised. -/
def of (extended : Bool) (s : Script) : Kind :=
  let basic := (payToKey? s.bytes).or (payToKeyId? s.bytes)
  let found := if extended then (basic.or (coldStake? s.bytes)).or (mint? s.bytes) else basic
  found.getD nonStandard

end Kind

/-- Says what a locking script commits to. -/
abbrev Classifier := Script → Kind

end Script

end AuditChain
