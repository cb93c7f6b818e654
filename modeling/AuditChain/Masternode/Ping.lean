import AuditChain.Transaction
/-!
# Pings

A masternode shows that it is alive by signing its collateral and the time. Times are seconds in 64
bits, and the distance of two times may not fit in them.
-/

namespace AuditChain.Masternode

/-! ## Errors -/

/-- What a caller can do about an error. -/
inductive ErrorKind where
  | configuration
  | network
  | protocol
  | crypto
  | syncNotReady
deriving DecidableEq

inductive NodeError where
  | notRunning
  | tooEarly (elapsed : Nat)
  | notRegistered
  | disabled
  | signing (error : KeyError)
  | invalidPingSignature
deriving DecidableEq

namespace NodeError

def message : NodeError → String
  | notRunning => "Masternode is not in a running status"
  | tooEarly elapsed => s!"Too early to send Masternode Ping, last ping {elapsed} seconds ago"
  | notRegistered => "Masternode List doesn't include our Masternode, shutting down Masternode pinging service!"
  | disabled => "Masternode role is disabled"
  | signing error => "Signing error: " ++ error.message
  | invalidPingSignature => "Invalid ping signature"

def kind : NodeError → ErrorKind
  | disabled => .configuration
  | notRunning | tooEarly _ | notRegistered => .protocol
  | signing _ | invalidPingSignature => .crypto

/-- The same call can succeed later, without any change to the node. -/
def isTransient : NodeError → Bool
  | tooEarly _ => true
  | _ => false

end NodeError

/-- The distance of two times does not fit in 64 bits. -/
inductive TimeOverflow where
  | distance
deriving DecidableEq

/-! ## Pings -/

/-- The least number of seconds between two pings of one masternode. -/
def pingSpacing : Nat := 300

structure Ping where
  collateral : OutPoint
  sigTime : Int64
  signature : Bytes
deriving DecidableEq

namespace Ping

/-- What the signature is over. -/
def signingHash (p : Ping) : Hash256 := hash256 (encode p.collateral ++ encode p.sigTime)

/-- A ping of the given time, with its signature. -/
def signed (signer : MessageSigner) (key : KeyPair) (collateral : OutPoint) (time : Int64) : Except NodeError Ping :=
  let p : Ping := ⟨collateral, time, []⟩
  match signer.sign p.signingHash key with
  | .ok signature => .ok { p with signature := signature }
  | .error e => .error (.signing e)

def verify (signer : MessageSigner) (key : PublicKey) (p : Ping) : Except NodeError Unit :=
  match signer.verify p.signingHash p.signature key with
  | .ok () => .ok ()
  | .error _ => .error .invalidPingSignature

/-- The seconds between the ping and `now`, in either direction. -/
def age (p : Ping) (now : Int64) : Except TimeOverflow Nat :=
  let distance := (now.toInt - p.sigTime.toInt).natAbs
  if distance < 0x8000000000000000 then .ok distance else .error .distance

/-- The time of the ping, if a calendar with years of at most six digits has it. -/
def signedAt? (p : Ping) : Option Int64 :=
  if -8334601228800 ≤ p.sigTime.toInt ∧ p.sigTime.toInt ≤ 8210266876799 then some p.sigTime else none

end Ping

end AuditChain.Masternode
