import AuditChain.Masternode.Conf
import AuditChain.Masternode.Registry
import AuditChain.Masternode.Settings
/-!
# The local masternode

A node with the masternode role is polled. Once the chain is synced it starts if the registry has it,
and otherwise finds out what keeps it from running; from then on each poll sends a ping, unless the
last one is too recent. What the node asks of its surroundings is given as a value, and all that it asks
of them or tells them is returned as a list of calls, in order.
-/

namespace AuditChain.Masternode

open Net (Endpoint)

/-! ## States -/

/-- What keeps a node from running. -/
inductive Obstacle where
  | noAddress
  | invalidAddress (text : String)
  | wrongPort (port : UInt16) (network : Network)
  | unreachable (endpoint : Endpoint)
  /-- Nothing is wrong; the controller has to start the node. -/
  | waitingForStart
  | notRegistered
deriving DecidableEq

namespace Obstacle

def detail? : Obstacle → Option String
  | invalidAddress text => some text
  | wrongPort port network =>
    some (s!"{port.toNat} - only {network.defaultPort.toNat} is supported on " ++ network.name ++ ".")
  | unreachable endpoint => some endpoint.toText
  | _ => none

def text (o : Obstacle) : String :=
  let detail := o.detail?.getD ""
  match o with
  | noAddress => "Can't detect external address. Please use the masternodeaddr configuration option."
  | invalidAddress _ => "Invalid masternodeaddr: " ++ detail
  | wrongPort .. => "Invalid port: " ++ detail
  | unreachable _ => "Could not connect to " ++ detail
  | waitingForStart => "Waiting for start message from controller."
  | notRegistered => NodeError.notRegistered.message

def kind : Obstacle → ErrorKind
  | noAddress | invalidAddress _ => .configuration
  | wrongPort .. | unreachable _ => .network
  | waitingForStart | notRegistered => .protocol

end Obstacle

inductive State where
  | syncing
  | initial
  | notCapable (obstacle : Obstacle)
  | started
deriving DecidableEq

namespace State

def name : State → String
  | syncing => "SYNC_IN_PROCESS"
  | initial => "INITIAL"
  | notCapable _ => "NOT_CAPABLE"
  | started => "STARTED"

/-- The kind of what holds the node back, if anything does. -/
def errorKind? : State → Option ErrorKind
  | syncing => some .syncNotReady
  | notCapable o => some o.kind
  | _ => none

def message : State → String
  | syncing => "Sync in progress. Must wait until sync is complete to start Masternode"
  | initial => "Node just started, not yet activated"
  | notCapable o => "Not capable masternode: " ++ o.text
  | started => "Masternode successfully started"

end State

/-! ## Nodes and their surroundings -/

structure Node where
  settings : Settings
  /-- The signing key, which only a node without the masternode role may lack. -/
  key : Option KeyPair
  state : State
  collateral : Option OutPoint
  service : Option Endpoint
deriving DecidableEq

/-- The answers that a node gets from its surroundings during one operation. -/
structure Surroundings where
  synced : Bool
  /-- The address that the node finds itself to have. -/
  detected : Option Endpoint
  /-- Whether a connection to an address succeeds. -/
  reachable : Endpoint → Bool
  now : Int64
  signer : MessageSigner

/-- What a node asks of its surroundings, of the registry too, or tells them. -/
inductive Call where
  | askSync
  | detect
  | probe (endpoint : Endpoint)
  | readClock
  | sign (hash : Hash256) (key : KeyPair)
  | findByKey (key : PublicKey)
  | findByCollateral (collateral : OutPoint)
  | updateLastPing (ping : Ping)
  | hasBroadcast (hash : Hash256)
  | refreshBroadcast (hash : Hash256) (ping : Ping)
  | relay (ping : Ping)
deriving DecidableEq

/-- What an operation returns, leaves behind, and asked or told on its way. -/
structure Turn (α : Type) where
  result : α
  node : Node
  registry : Registry
  calls : List Call

namespace Node

/-- The version of this software. -/
def version : String := "0.1.0"

/-- The milliseconds after which a probe without an answer has failed. -/
def probeTimeout : Nat := 5000

def new (settings : Settings) (key : Option KeyPair) : Node := ⟨settings, key, .initial, none, none⟩

/-- A node with the key in its settings, which are read only if they give it the masternode role. -/
def ofSettings (settings : Settings) : Except ConfigError Node :=
  if settings.masternode then settings.keyPair.map fun key => new settings (some key)
  else .ok (new settings none)

def publicKey? (n : Node) : Option PublicKey := n.key.map KeyPair.publicKey

def isStarted (n : Node) : Bool := n.state == .started

/-! ## Starting -/

/-- Starts a node that has the masternode role, at the given collateral and address. -/
def enable (n : Node) (collateral : OutPoint) (service : Endpoint) : Bool × Node :=
  if n.settings.masternode then
    (true, { n with state := .started, collateral := some collateral, service := some service })
  else (false, n)

/-- What an entry of the controller's list says to a node: the collateral and the address, if the
entry is valid and has the node's key. -/
def readEntry (n : Node) (e : Entry) : Except ConfigError (OutPoint × Endpoint) := do
  e.validate.mapError .entry
  let key ← e.keyPair
  if n.publicKey? ≠ some key.publicKey then throw (.key (.foreign e.name))
  return (← e.collateral.mapError .entry, ← e.endpoint.mapError .entry)

/-- Starts the node from an entry of the controller's list. -/
def startFromEntry (n : Node) (e : Entry) : Except ConfigError Bool × Node :=
  match n.readEntry e with
  | .error error => (.error error, n)
  | .ok (collateral, endpoint) =>
    let (started, n) := n.enable collateral endpoint
    (.ok started, n)

/-- Starts the node from the entry with the given name. -/
def startNamed (n : Node) (c : Conf) (name : String) : Except ConfigError Bool × Node :=
  match c.get? name with
  | none => (.error (.unknownName name), n)
  | some e => n.startFromEntry e

/-- The identity under the node's key, if it is enabled and has the node's protocol version. -/
def ownIdentity? (n : Node) (r : Registry) : Option Identity := do
  let key ← n.publicKey?
  let m ← r.findByKey key
  if m.enabled && m.protocolVersion == n.settings.protocolVersion then return m else none

/-- Starts the node if the registry has it. A node without a key is not looked for. -/
def enableFromRegistry (n : Node) (r : Registry) : Node × List Call :=
  let calls := n.publicKey?.toList.map .findByKey
  match n.ownIdentity? r with
  | some m => ((n.enable m.collateral m.endpoint).2, calls)
  | none => (n, calls)

/-! ## Finding out what is wrong -/

/-- The address to serve on: the one in the settings, or else the one that is detected. -/
def resolveService (n : Node) (s : Surroundings) : Except Obstacle Endpoint × List Call :=
  let text := Text.trim (n.settings.address.getD "").toList
  if text.isEmpty then
    match s.detected with
    | some endpoint => (.ok endpoint, [.detect])
    | none => (.error .noAddress, [.detect])
  else
    match Endpoint.ofService? n.settings.network.defaultPort text with
    | some endpoint => (.ok endpoint, [])
    | none => (.error (.invalidAddress (String.ofList text)), [])

/-- What keeps an address from serving the node's network. -/
def checkService (n : Node) (s : Surroundings) (service : Endpoint) : Obstacle × List Call :=
  let network := n.settings.network
  if service.port ≠ network.defaultPort then (.wrongPort service.port network, [])
  else if s.reachable service then (.waitingForStart, [.probe service])
  else (.unreachable service, [.probe service])

/-- Finds out what keeps the node from running. It may do no more than wait for its controller. -/
def checkCapability (n : Node) (s : Surroundings) : Node × List Call :=
  match n.resolveService s with
  | (.error obstacle, calls) => ({ n with state := .notCapable obstacle }, calls)
  | (.ok service, calls) =>
    let (obstacle, more) := n.checkService s service
    ({ n with state := .notCapable obstacle, service := some service }, calls ++ more)

/-! ## Pinging -/

/-- Records a ping that is sent, also in the masternode's announcement if it was seen. -/
def record (r : Registry) (m : Identity) (p : Ping) : Registry × List Call :=
  let r := (r.updateLastPing p).2
  let calls : List Call := [.updateLastPing p, .hasBroadcast m.broadcastHash]
  if r.hasBroadcast m.broadcastHash then
    (r.refreshBroadcast m.broadcastHash p, calls ++ [.refreshBroadcast m.broadcastHash p])
  else (r, calls)

/-- The collateral to ping for and the key to sign with. -/
def pingRole (n : Node) : Except NodeError (OutPoint × KeyPair) :=
  match n.state, n.collateral, n.key with
  | .started, some collateral, some key => .ok (collateral, key)
  | .started, some _, none => .error .disabled
  | _, _, _ => .error .notRunning

/-- What a node asks to get a signed ping. -/
def signCalls (collateral : OutPoint) (key : KeyPair) (now : Int64) : List Call :=
  [.readClock, .sign (Ping.mk collateral now []).signingHash key]

/-- What a node asks before it sends a ping. -/
def pingQuestions (collateral : OutPoint) (key : KeyPair) (now : Int64) : List Call :=
  signCalls collateral key now ++ [.findByCollateral collateral]

/-- All that a node asks and tells when it sends a ping. -/
def pingCalls (r : Registry) (m : Identity) (key : KeyPair) (p : Ping) : List Call :=
  pingQuestions p.collateral key p.sigTime ++ (record r m p).2 ++ [.relay p]

/-- Signs and relays a ping for the node's collateral, unless the last one is too recent. -/
def sendPing (n : Node) (s : Surroundings) (r : Registry) : Turn (Except TimeOverflow (Except NodeError Unit)) :=
  let refuse (e : NodeError) (calls : List Call) : Turn (Except TimeOverflow (Except NodeError Unit)) :=
    ⟨.ok (.error e), n, r, calls⟩
  match n.pingRole with
  | .error e => refuse e []
  | .ok (collateral, key) =>
    -- The registry is asked after signing, so a signer that fails is reported first.
    match Ping.signed s.signer key collateral s.now with
    | .error e => refuse e (signCalls collateral key s.now)
    | .ok ping =>
      let asked := pingQuestions collateral key s.now
      match r.findByCollateral collateral with
      | none => ⟨.ok (.error .notRegistered), { n with state := .notCapable .notRegistered }, r, asked⟩
      | some m =>
        let relay : Turn (Except TimeOverflow (Except NodeError Unit)) :=
          ⟨.ok (.ok ()), n, (record r m ping).1, pingCalls r m key ping⟩
        match m.pingAge s.now with
        | .error overflow => ⟨.error overflow, n, r, asked⟩
        | .ok (some age) => if age < pingSpacing then refuse (.tooEarly age) asked else relay
        | .ok none => relay

/-! ## Polling -/

/-- The node does not have to wait until the chain is synced. -/
def skipsSync (n : Node) : Bool := n.settings.network.isRegtest

/-- A synced node that has not tried to start tries it now. -/
def tryStart (n : Node) (r : Registry) : Node × List Call :=
  if n.state = .syncing ∨ n.state = .initial then { n with state := .initial }.enableFromRegistry r else (n, [])

/-- What a poll does once the chain is synced. -/
def pollSynced (n : Node) (s : Surroundings) (r : Registry) : Turn (Except TimeOverflow Unit) :=
  let (n, lookups) := n.tryStart r
  if n.state = .started then
    let t := n.sendPing s r
    { t with result := t.result.map fun _ => (), calls := lookups ++ t.calls }
  else
    let (n, calls) := n.checkCapability s
    ⟨.ok (), n, r, lookups ++ calls⟩

/-- One poll. Errors of the ping are dropped. -/
def manageStatus (n : Node) (s : Surroundings) (r : Registry) : Turn (Except TimeOverflow Unit) :=
  if !n.settings.masternode then ⟨.ok (), n, r, []⟩
  else if n.skipsSync then n.pollSynced s r
  else if !s.synced then ⟨.ok (), { n with state := .syncing }, r, [.askSync]⟩
  else
    let t := n.pollSynced s r
    { t with calls := .askSync :: t.calls }

/-- Starts over and polls once. -/
def resetStatus (n : Node) (s : Surroundings) (r : Registry) : Turn (Except TimeOverflow Unit) :=
  { n with state := .initial }.manageStatus s r

end Node

end AuditChain.Masternode
