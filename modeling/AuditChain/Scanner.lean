/-!
# Scanners

A scanner takes something off the front of a text, or fails; an alternative to a scanner that failed
starts where that scanner started.
-/

namespace AuditChain

abbrev Scanner := StateT (List Char) Option

namespace Scanner

variable {α : Type}

/-- The next character, if it satisfies `p`. -/
def satisfying (p : Char → Bool) : Scanner Char := fun cs =>
  match cs with
  | c :: rest => if p c then some (c, rest) else none
  | [] => none

/-- The given character. -/
def char (c : Char) : Scanner Unit := fun cs => (satisfying (· == c) cs).map fun (_, rest) => ((), rest)

/-- All characters up to the first that does not satisfy `p`. -/
def span (p : Char → Bool) : Scanner (List Char) := fun cs => some (cs.takeWhile p, cs.dropWhile p)

/-- The given characters. -/
def chars (start : List Char) : Scanner Unit := fun cs =>
  if cs.take start.length = start then some ((), cs.drop start.length) else none

/-- At most `fuel` repetitions. -/
def manyUpTo (scan : Scanner α) : (fuel : Nat) → Scanner (List α)
  | 0 => pure []
  | fuel + 1 => do
    match ← optional scan with
    | none => return []
    | some x => return x :: (← manyUpTo scan fuel)

/-- As many repetitions as there are, of a scanner that always takes at least one character. -/
def many (scan : Scanner α) : Scanner (List α) := fun cs => manyUpTo scan cs.length cs

/-- What a scanner takes that has to take the whole text. -/
def whole? (scan : Scanner α) (cs : List Char) : Option α :=
  match scan cs with
  | some (x, []) => some x
  | _ => none

end Scanner

end AuditChain
