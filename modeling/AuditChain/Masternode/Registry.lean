import AuditChain.Masternode.Ping
import AuditChain.Net.Reading
import AuditChain.Table
/-!
# The registry of masternodes

What a node knows of the masternodes of the network: their identities by collateral, and the
announcements and pings that it has seen, by their hashes.
-/

namespace AuditChain.Masternode

/-! ## Identities and announcements -/

/-- A masternode as the network sees it. -/
structure Identity where
  collateral : OutPoint
  endpoint : Net.Endpoint
  /-- The key that the masternode signs its pings with. -/
  key : PublicKey
  protocolVersion : UInt32
  enabled : Bool
  lastPing : Option Ping
deriving DecidableEq

namespace Identity

/-- The seconds between the last ping and `now`, if there was a ping. -/
def pingAge (m : Identity) (now : Int64) : Except TimeOverflow (Option Nat) :=
  match m.lastPing with
  | none => .ok none
  | some p => (p.age now).map some

/-- The last ping is less than `seconds` away from `now`. -/
def pingedWithin (m : Identity) (seconds : Int) (now : Int64) : Except TimeOverflow Bool :=
  (m.pingAge now).map fun age? => age?.any fun age => decide ((age : Int) < seconds)

def lastSeen? (m : Identity) : Option Int64 := m.lastPing.bind Ping.signedAt?

/-- The key of the masternode's announcement among those seen. -/
def broadcastHash (m : Identity) : Hash256 := hash256 (encode m.collateral ++ m.key.bytes)

end Identity

/-- A controller's announcement that a masternode has started. -/
structure Broadcast where
  identity : Identity
  sigTime : Int64
  signature : Bytes
deriving DecidableEq

def Broadcast.hash (b : Broadcast) : Hash256 := b.identity.broadcastHash

/-! ## The registry -/

structure Registry where
  masternodes : Table OutPoint Identity
  broadcasts : Table Hash256 Broadcast
  pings : Table Hash256 Ping

namespace Registry

def empty : Registry := ⟨.empty, .empty, .empty⟩

/-- Puts an identity in place of the one with its collateral. -/
def insert (r : Registry) (m : Identity) : Registry := { r with masternodes := r.masternodes.insert m.collateral m }

def remove (r : Registry) (collateral : OutPoint) : Option Identity × Registry :=
  (r.masternodes.get? collateral, { r with masternodes := r.masternodes.erase collateral })

def findByCollateral (r : Registry) (collateral : OutPoint) : Option Identity := r.masternodes.get? collateral

/-- The first identity with the given key. -/
def findByKey (r : Registry) (key : PublicKey) : Option Identity := r.masternodes.values.find? (·.key = key)

def count (r : Registry) : Nat := r.masternodes.size

def enabledCount (r : Registry) : Nat := r.masternodes.values.countP (·.enabled)

/-- Makes a ping the last one of its collateral. False if the collateral is unknown. -/
def updateLastPing (r : Registry) (p : Ping) : Bool × Registry :=
  if r.masternodes.contains p.collateral then
    (true,
      { r with
        masternodes := r.masternodes.modify p.collateral fun m => { m with lastPing := some p }
        pings := r.pings.insert p.signingHash p })
  else (false, r)

def seenPing (r : Registry) (hash : Hash256) : Option Ping := r.pings.get? hash

def addBroadcast (r : Registry) (b : Broadcast) : Hash256 × Registry :=
  (b.hash, { r with broadcasts := r.broadcasts.insert b.hash b })

def hasBroadcast (r : Registry) (hash : Hash256) : Bool := r.broadcasts.contains hash

def seenBroadcast (r : Registry) (hash : Hash256) : Option Broadcast := r.broadcasts.get? hash

/-- Puts a ping into an announcement that was seen. -/
def refreshBroadcast (r : Registry) (hash : Hash256) (p : Ping) : Registry :=
  { r with
    broadcasts := r.broadcasts.modify hash fun b => { b with identity := { b.identity with lastPing := some p } } }

/-! ## Changes from outside -/

/-- What the rest of the network does to a registry. -/
inductive Change where
  | insert (m : Identity)
  | remove (collateral : OutPoint)
  | ping (p : Ping)
  | announce (b : Broadcast)
  | refresh (hash : Hash256) (p : Ping)
deriving DecidableEq

def apply (r : Registry) : Change → Registry
  | .insert m => r.insert m
  | .remove collateral => (r.remove collateral).2
  | .ping p => (r.updateLastPing p).2
  | .announce b => (r.addBroadcast b).2
  | .refresh hash p => r.refreshBroadcast hash p

end Registry

end AuditChain.Masternode
