import AuditChain.Masternode.ConfigError
import AuditChain.Net.Reading
import AuditChain.Transaction
/-!
# The controller's list of masternodes

A controller lists the masternodes that it starts in a text with one masternode a line: a name, an
address with a port, a key, and the transaction id and index of the collateral. Blank lines and lines
that start with a hash sign do not count, and no name may come twice.
-/

namespace AuditChain.Masternode

/-! ## Entries -/

structure Entry where
  /-- What the controller calls the masternode. -/
  name : String
  address : String
  privkey : String
  txid : String
  index : UInt32
deriving DecidableEq

namespace Entry

def hasBlank (text : String) : Bool := text.toList.any Text.isBlank

def endpoint (e : Entry) : Except EntryError Net.Endpoint :=
  match Net.Endpoint.ofText? e.address with
  | some endpoint => .ok endpoint
  | none => .error (.address e.address)

def collateral (e : Entry) : Except EntryError OutPoint :=
  match FixedBytes.ofHex? 32 e.txid with
  | some txid => .ok ⟨txid, e.index⟩
  | none => .error (.txid e.txid)

def keyPair (e : Entry) : Except ConfigError KeyPair :=
  (KeyPair.ofSecretHex e.privkey).mapError fun error => .key (.unreadableOf e.name error)

/-- The key is only looked at when it is used. -/
def validate (e : Entry) : Except EntryError Unit :=
  if e.name.isEmpty || hasBlank e.name then .error .name
  else do
    let _ ← e.endpoint
    if e.privkey.isEmpty then throw .emptyKey
    let _ ← e.collateral

/-! ## Lines -/

def toChars (e : Entry) : List Char :=
  e.name.toList ++ ' ' :: (e.address.toList ++ ' ' :: (e.privkey.toList ++ ' ' :: (e.txid.toList ++
    ' ' :: Text.toDigits e.index.toNat)))

def toLine (e : Entry) : String := String.ofList e.toChars

def ofChars (cs : List Char) : Except LineError Entry :=
  match Text.words cs with
  | [name, address, privkey, txid, index] =>
    match Text.readUInt32? index with
    | none => .error (.index (String.ofList index))
    | some n =>
      let e : Entry := ⟨String.ofList name, String.ofList address, String.ofList privkey, String.ofList txid, n⟩
      match e.validate with
      | .ok () => .ok e
      | .error error => .error (.entry error)
  | fields => .error (.fieldCount fields.length)

/-- Reads the line with the given number. -/
def ofLine (number : Nat) (line : String) : Except ConfigError Entry :=
  (ofChars line.toList).mapError (.line number)

end Entry

/-! ## Lists -/

structure Conf where
  entries : List Entry
deriving DecidableEq

namespace Conf

def empty : Conf := ⟨[]⟩

def get? (c : Conf) (name : String) : Option Entry := c.entries.find? (·.name == name)

def has (c : Conf) (name : String) : Bool := c.entries.any (·.name == name)

/-- Blank lines and comments. -/
def isSkipped (line : List Char) : Bool := line.isEmpty || line.head? == some '#'

/-- Reads lines from the given number on, after the entries of the lines before. -/
def readLines : (number : Nat) → Conf → List (List Char) → Except ConfigError Conf
  | _, c, [] => .ok c
  | number, c, line :: rest =>
    let line := Text.trim line
    if isSkipped line then readLines (number + 1) c rest
    else
      match Entry.ofChars line with
      | .error error => .error (.line number error)
      | .ok e => if c.has e.name then .error (.duplicateName e.name) else readLines (number + 1) ⟨c.entries ++ [e]⟩ rest

def parse (text : String) : Except ConfigError Conf := readLines 1 empty (Text.lines text.toList)

/-- The list in a file. -/
def load (file : Option Bytes) : Except ConfigError Conf :=
  match readText file with
  | .error e => .error (.file e)
  | .ok text => parse text

/-- The comment at the top of a saved list. -/
def preamble : String :=
  "# PRCY Masternode Configuration\n" ++
  "# Format: alias IP:port masternodeprivkey collateral_txid collateral_output_index\n" ++
  "#\n\n"

/-- The text in which the list is saved. -/
def toText (c : Conf) : String :=
  String.ofList (preamble.toList ++ c.entries.flatMap fun e => e.toChars ++ ['\n'])

/-- The file in which the list is saved. -/
def save (c : Conf) : Bytes := c.toText.toUTF8.data.toList

/-- Appends an entry, if it is valid and its name is new. -/
def add (c : Conf) (e : Entry) : Except ConfigError Unit × Conf :=
  match e.validate with
  | .error error => (.error (.entry error), c)
  | .ok () => if c.has e.name then (.error (.duplicateName e.name), c) else (.ok (), ⟨c.entries ++ [e]⟩)

/-- Takes out the first entry with the given name. -/
def remove (c : Conf) (name : String) : Except ConfigError Unit × Conf :=
  if c.has name then (.ok (), ⟨c.entries.eraseP (·.name == name)⟩) else (.error (.unknownName name), c)

end Conf

end AuditChain.Masternode
