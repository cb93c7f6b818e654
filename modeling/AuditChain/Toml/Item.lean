/-!
# TOML documents

What a document holds, and how its statements build it. A table may be written by a header, by
dotted keys or inline, and may be implied by the header of a table inside it; how it was written
decides what may still be added to it.
-/

namespace AuditChain.Toml

/-- How a table came about. -/
inductive Origin where
  | header
  /-- By the header of a table inside it. -/
  | implied
  | dotted
  | inline
deriving DecidableEq

inductive Item where
  | string (text : String)
  | integer (n : Int)
  /-- A number that is not an integer, as it was written. -/
  | float (text : String)
  | boolean (b : Bool)
  /-- A date, a time or both, as it was written. -/
  | dateTime (text : String)
  | array (items : List Item)
  | table (origin : Origin) (entries : List (String × Item))
  /-- An array of tables that headers write one by one. -/
  | tables (elements : List (List (String × Item)))

abbrev Entries := List (String × Item)

namespace Entries

def get? (t : Entries) (key : String) : Option Item := (t.find? (·.1 == key)).map Prod.snd

/-- Puts an item in the place of the one under `key`. -/
def replace (t : Entries) (key : String) (item : Item) : Entries :=
  t.map fun e => if e.1 == key then (key, item) else e

/-- Changes the table that `path` leads to, and makes the tables on the way that are missing. In an
array of tables the way goes on in the last one. Inline tables are closed, and dotted keys do not
lead into a table that has a header of its own. -/
def update (dotted : Bool) (change : Origin → Entries → Option Entries) :
    (path : List String) → (origin : Origin) → Entries → Option Entries
  | [], origin, t => change origin t
  | key :: path, _, t =>
    match t.get? key with
    | none => do
      let origin := if dotted then .dotted else .implied
      let inner ← update dotted change path origin []
      return t ++ [(key, .table origin inner)]
    | some (.table origin inner) =>
      if origin = .inline ∨ dotted ∧ origin = .header then none
      else do
        let inner ← update dotted change path origin inner
        return t.replace key (.table origin inner)
    | some (.tables elements) => do
      let last ← elements.getLast?
      let last ← update dotted change path .header last
      return t.replace key (.tables (elements.dropLast ++ [last]))
    | some _ => none

/-- Adds an item under a dotted key, whose parts before the last are in `path`. The table it goes into
must have been made by dotted keys just when there are such parts. -/
def assign (path : List String) (key : String) (item : Item) (origin : Origin) (t : Entries) : Option Entries :=
  update true (fun origin t =>
    if decide (origin = .dotted) = path.isEmpty ∨ (t.get? key).isSome then none else some (t ++ [(key, item)]))
    path origin t

/-- Opens the table of a header. It may have been implied before, but nothing else. -/
def openTable (path : List String) (key : String) (t : Entries) : Option Entries :=
  update false (fun _ t =>
    match t.get? key with
    | none => some (t ++ [(key, .table .header [])])
    | some (.table .implied inner) => some (t.replace key (.table .header inner))
    | some _ => none)
    path .header t

/-- Opens another element of the array of tables of a header. -/
def openElement (path : List String) (key : String) (t : Entries) : Option Entries :=
  update false (fun _ t =>
    match t.get? key with
    | none => some (t ++ [(key, .tables [[]])])
    | some (.tables elements) => some (t.replace key (.tables (elements ++ [[]])))
    | some _ => none)
    path .header t

end Entries

end AuditChain.Toml
