import AuditChain.Toml.Scalar
/-!
# Reading TOML

A document is a sequence of lines, each with at most one statement: an assignment to a dotted key, or
a header. `Toml.parse?` gives the entries of the whole document, or nothing if a line is malformed or
says something that the lines before it rule out.
-/

namespace AuditChain.Toml

open Scanner

/-! ## Keys and blank space -/

def isBare (c : Char) : Bool := c.isAlphanum || c == '_' || c == '-'

def simpleKey : Scanner String := do
  let cs ← basicString <|> literalString <|> do
    let cs ← span isBare
    guard (!cs.isEmpty)
    return cs
  return String.ofList cs

/-- How many parts a dotted key may have, and how deep arrays and inline tables may be nested. -/
def maxDepth : Nat := 80

/-- The parts of a dotted key before the last, and the last. -/
def dottedKey : Scanner (List String × String) := do
  let first ← simpleKey
  let others ← many do
    spaces
    char '.'
    spaces
    simpleKey
  let parts := first :: others
  guard (parts.length ≤ maxDepth)
  return (parts.dropLast, parts.getLastD first)

def comment : Scanner Unit := do
  char '#'
  let _ ← span isPlain

/-- Spaces, line ends and comments, which may stand between the parts of an array or an inline table. -/
def filler : Scanner Unit := do
  let _ ← many ((do let _ ← satisfying isSpace) <|> newline <|> (do comment; newline))

/-! ## Values -/

/-- Items between commas, with a comma allowed after the last. -/
def commaList {α : Type} (item : Scanner α) : Scanner (List α) := do
  filler
  match ← optional item with
  | none => return []
  | some first =>
    let others ← many do
      filler
      char ','
      filler
      item
    filler
    let _ ← optional (char ',')
    filler
    return first :: others

def array (item : Scanner Item) : Scanner Item := do
  char '['
  let items ← commaList item
  char ']'
  return .array items

/-- A dotted key and its item, with `gap` on both sides of the equals sign. -/
def assignment (gap : Scanner Unit) (item : Scanner Item) : Scanner ((List String × String) × Item) := do
  let key ← dottedKey
  gap
  char '='
  gap
  return (key, ← item)

def inlineTable (item : Scanner Item) : Scanner Item := do
  char '\x7b'
  let assignments ← commaList (assignment filler item)
  char '\x7d'
  -- The keys of an inline table follow the rules of a table of its own.
  let added := assignments.foldlM (fun t ((path, key), item) => Entries.assign path key item .header t) []
  match added with
  | some entries => return .table .inline entries
  | none => failure

def stringItem : Scanner Item := do return .string (String.ofList (← string))

/-- A value in which arrays and inline tables stand at most `depth` deep inside each other. -/
def value : (depth : Nat) → Scanner Item
  | 0 => stringItem <|> scalar
  | depth + 1 => stringItem <|> array (value depth) <|> inlineTable (value depth) <|> scalar

/-! ## Lines -/

inductive Statement where
  | assign (path : List String) (key : String) (item : Item)
  | table (path : List String) (key : String)
  | element (path : List String) (key : String)

def header (opening closing : List Char) : Scanner (List String × String) := do
  chars opening
  spaces
  let key ← dottedKey
  spaces
  chars closing
  return key

def statement : Scanner Statement :=
  (do let (path, key) ← header ['[', '['] [']', ']']; return .element path key) <|>
    (do let (path, key) ← header ['['] [']']; return .table path key) <|>
    (do let ((path, key), item) ← assignment spaces (value maxDepth); return .assign path key item)

/-- A line without its end. -/
def line : Scanner (Option Statement) := do
  spaces
  let found ← optional statement
  spaces
  let _ ← optional comment
  return found

def document : Scanner (List Statement) := do
  let lines ← many do
    let found ← line
    newline
    return found
  let last ← line
  return (lines ++ [last]).filterMap id

/-! ## Building the document -/

/-- The entries so far, and the table that assignments go to. -/
structure Progress where
  entries : Entries
  current : List String

def Progress.step (p : Progress) : Statement → Option Progress
  | .assign path key item => do
    let entries ← p.entries.update false (Entries.assign path key item) p.current .header
    return { p with entries := entries }
  | .table path key => do return ⟨← p.entries.openTable path key, path ++ [key]⟩
  | .element path key => do return ⟨← p.entries.openElement path key, path ++ [key]⟩

/-- The document without a byte order mark at its start. -/
def skipMark : List Char → List Char
  | '\ufeff' :: cs => cs
  | cs => cs

def parse? (text : String) : Option Entries := do
  let statements ← document.whole? (skipMark text.toList)
  let done ← statements.foldlM Progress.step ⟨[], []⟩
  return done.entries

end AuditChain.Toml
