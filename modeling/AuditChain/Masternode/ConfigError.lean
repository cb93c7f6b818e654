import AuditChain.Key
/-!
# Faults of configuration

What can be wrong with the settings file, with the controller's list of masternodes, and with the
keys in either.
-/

namespace AuditChain.Masternode

/-- Why a file gave no text. -/
inductive FileError where
  | notFound
  | notText
deriving DecidableEq

/-- What a file holds as text. `none` is a file that does not exist. -/
def readText (file : Option Bytes) : Except FileError String :=
  match file with
  | none => .error .notFound
  | some bs =>
    match String.fromUTF8? ⟨bs.toArray⟩ with
    | some text => .ok text
    | none => .error .notText

/-- What is wrong with an entry of the controller's list. -/
inductive EntryError where
  | name
  | address (text : String)
  | emptyKey
  | txid (text : String)
deriving DecidableEq

/-- What is wrong with a line of the controller's list. -/
inductive LineError where
  | fieldCount (count : Nat)
  | index (text : String)
  | entry (error : EntryError)
deriving DecidableEq

/-- What is wrong with a masternode key. -/
inductive KeyFault where
  | required
  | unreadable (error : KeyError)
  | unreadableOf (name : String) (error : KeyError)
  | foreign (name : String)
deriving DecidableEq

inductive ConfigError where
  | file (error : FileError)
  /-- The settings are not TOML, or a setting has the wrong type. -/
  | settings
  | line (number : Nat) (error : LineError)
  | entry (error : EntryError)
  | key (fault : KeyFault)
  | duplicateName (name : String)
  | unknownName (name : String)
deriving DecidableEq

def FileError.message : FileError → String
  | notFound => "No such file or directory (os error 2)"
  | notText => "stream did not contain valid UTF-8"

def EntryError.message (e : EntryError) : String :=
  "Invalid format: " ++ match e with
    | name => "Invalid alias"
    | address text => "Invalid IP:port format: " ++ text
    | emptyKey => "Empty private key"
    | txid text => "Invalid transaction ID format: " ++ text

def LineError.message : LineError → String
  | fieldCount count => s!"Expected 5 fields, got {count}. Format: alias IP:port privkey txid index"
  | index text => "Invalid output index: " ++ text
  | entry error => error.message

def KeyFault.message : KeyFault → String
  | required => "masternodeprivkey is required when masternode=true"
  | unreadable error => error.message
  | unreadableOf name error => name ++ ": " ++ error.message
  | foreign name => "entry " ++ name ++ " is for another masternode"

def ConfigError.message : ConfigError → String
  | file error => "IO error: " ++ error.message
  | settings => "Settings error"
  | line number error => s!"Parse error at line {number}: " ++ error.message
  | entry error => error.message
  | key fault => "Invalid masternode private key: " ++ fault.message
  | duplicateName name => "Duplicate alias: " ++ name
  | unknownName name => "Masternode not found: " ++ name

end AuditChain.Masternode
