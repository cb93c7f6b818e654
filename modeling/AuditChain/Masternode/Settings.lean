import AuditChain.Masternode.ConfigError
import AuditChain.Toml.Document
/-!
# Node settings

The settings that concern the masternode role. They are read from a TOML document in which every
setting may be missing and unknown keys do not count.
-/

namespace AuditChain.Masternode

/-! ## Networks -/

inductive Network where
  | mainnet
  | testnet
  | regtest
deriving DecidableEq

namespace Network

def name : Network → String
  | mainnet => "mainnet"
  | testnet => "testnet"
  | regtest => "regtest"

def ofName? (text : String) : Option Network := [mainnet, testnet, regtest].find? (·.name == text)

/-- The port that a masternode has to serve on. -/
def defaultPort : Network → UInt16
  | mainnet => 53572
  | testnet => 53574
  | regtest => 51476

def isRegtest (n : Network) : Bool := n == regtest

end Network

/-! ## Settings -/

structure Settings where
  masternode : Bool
  /-- The address to serve on; it is detected if missing or blank. -/
  address : Option String
  /-- The signing key, in hexadecimal. -/
  privkey : String
  network : Network
  protocolVersion : UInt32
deriving DecidableEq

namespace Settings

def defaultProtocolVersion : UInt32 := 70920

instance : Inhabited Settings := ⟨⟨false, none, "", .mainnet, defaultProtocolVersion⟩⟩

/-- A masternode needs a signing key. -/
def validate (s : Settings) : Except ConfigError Unit :=
  if s.masternode && s.privkey.isEmpty then .error (.key .required) else .ok ()

def keyPair (s : Settings) : Except ConfigError KeyPair :=
  (KeyPair.ofSecretHex s.privkey).mapError fun e => .key (.unreadable e)

/-! ## Reading settings -/

/-- The setting under a key, read from its item, or the default if there is none. -/
def setting {α : Type} (entries : Toml.Entries) (key : String) (default : α) (read : Toml.Item → Option α) : Option α :=
  match entries.get? key with
  | none => some default
  | some item => read item

def readBool : Toml.Item → Option Bool
  | .boolean b => some b
  | _ => none

def readString : Toml.Item → Option String
  | .string text => some text
  | _ => none

def readUInt32 : Toml.Item → Option UInt32
  | .integer n => if 0 ≤ n ∧ n < UInt32.size then some (UInt32.ofNat n.toNat) else none
  | _ => none

/-- A network is given by its name, or by a table with the name as its only key and nothing in it. -/
def readNetwork : Toml.Item → Option Network
  | .string text => Network.ofName? text
  | .table _ [(text, .table _ [])] => Network.ofName? text
  | .table _ [(text, .array [])] => Network.ofName? text
  | _ => none

def ofEntries? (entries : Toml.Entries) : Option Settings := do
  let masternode ← setting entries "masternode" false readBool
  let address ← setting entries "masternodeaddr" none fun item => some <$> readString item
  let privkey ← setting entries "masternodeprivkey" "" readString
  let network ← setting entries "network" .mainnet readNetwork
  let protocolVersion ← setting entries "protocol_version" defaultProtocolVersion readUInt32
  return ⟨masternode, address, privkey, network, protocolVersion⟩

def ofToml (text : String) : Except ConfigError Settings :=
  match (Toml.parse? text).bind ofEntries? with
  | none => .error .settings
  | some s => s.validate.map fun _ => s

/-- The settings in a file. -/
def load (file : Option Bytes) : Except ConfigError Settings :=
  match readText file with
  | .error e => .error (.file e)
  | .ok text => ofToml text

end Settings

end AuditChain.Masternode
