import AuditChain.Hash
/-!
# Merkle trees

A tree is kept flat: the leaves, then each level of parents up to the root. A level of odd length
pairs its last node with itself, so two leaf lists can have one root; `mutated` marks the lists
where a pair of equal nodes makes that possible. `levels` is the same tree level by level.
-/

namespace AuditChain.Merkle

/-! ## Level by level -/

/-- The parents of the nodes of one level. -/
def parents : List Hash256 → List Hash256
  | [] => []
  | [x] => [hashPair x x]
  | x :: y :: rest => hashPair x y :: parents rest

/-- Two nodes that are paired, both really there, are equal. -/
def hasTwins : List Hash256 → Bool
  | x :: y :: rest => x == y || hasTwins rest
  | _ => false

/-- A level and those above it, down to a level of at most one node. Each level is about half as long
as the one before, so its length bounds the number of steps. -/
def levelsFrom : (fuel : Nat) → List Hash256 → List (List Hash256)
  | 0, level => [level]
  | fuel + 1, level => if level.length ≤ 1 then [level] else level :: levelsFrom fuel (parents level)

def levels (leaves : List Hash256) : List (List Hash256) := levelsFrom leaves.length leaves

/-! ## The flat tree -/

structure Tree where
  nodes : Array Hash256
  leafCount : Nat
  mutated : Bool

namespace Tree

/-- Appends the parents of the `size` nodes from `start`, beginning with the pair at `i`, and notes
equal pairs. It stops with `none` if it would look outside the nodes. -/
def appendParents (start size : Nat) : (pairs : Nat) → (i : Nat) → Array Hash256 → Bool → Option (Array Hash256 × Bool)
  | 0, _, nodes, mutated => some (nodes, mutated)
  | pairs + 1, i, nodes, mutated => do
    -- The last node of a level of odd length is its own partner, which is no mutation.
    let j := min (i + 1) (size - 1)
    let left ← nodes[start + i]?
    let right ← nodes[start + j]?
    appendParents start size pairs (i + 2) (nodes.push (hashPair left right))
      (mutated || (j == i + 1 && left == right))

/-- Appends all levels above the one of `size` nodes from `start`. -/
def appendLevels : (fuel : Nat) → (start size : Nat) → Array Hash256 → Bool → Option (Array Hash256 × Bool)
  | 0, _, _, nodes, mutated => some (nodes, mutated)
  | fuel + 1, start, size, nodes, mutated =>
    if size ≤ 1 then some (nodes, mutated)
    else do
      let (nodes, mutated) ← appendParents start size ((size + 1) / 2) 0 nodes mutated
      appendLevels fuel (start + size) ((size + 1) / 2) nodes mutated

/-- The tree over `leaves`, or `none` if building it looked outside the nodes. -/
def build? (leaves : List Hash256) : Option Tree := do
  let (nodes, mutated) ← appendLevels leaves.length 0 leaves.length leaves.toArray false
  return ⟨nodes, leaves.length, mutated⟩

def ofLeaves (leaves : List Hash256) : Tree := (build? leaves).getD ⟨leaves.toArray, leaves.length, false⟩

/-- The last node, or zero for a tree without leaves. -/
def root (t : Tree) : Hash256 := t.nodes.back?.getD 0

/-- The siblings on the way up from node `index` of the level of `size` nodes from `start`. -/
def siblings (nodes : Array Hash256) : (fuel : Nat) → (start size index : Nat) → Option (List Hash256)
  | 0, _, _, _ => some []
  | fuel + 1, start, size, index =>
    if size ≤ 1 then some []
    else do
      let sibling ← nodes[start + min (index ^^^ 1) (size - 1)]?
      let above ← siblings nodes fuel (start + size) ((size + 1) / 2) (index / 2)
      return sibling :: above

/-- The siblings on the way from leaf `index` to the root; none for an index past the leaves. -/
def branch (t : Tree) (index : Nat) : List Hash256 :=
  if t.leafCount ≤ index then []
  else (siblings t.nodes t.leafCount 0 t.leafCount index).getD []

end Tree

/-! ## Branches -/

/-- The node reached from `hash` by way of its siblings; the bits of `index` say on which side each
sibling stands. -/
def climb (hash : Hash256) : (branch : List Hash256) → (index : Nat) → Hash256
  | [], _ => hash
  | sibling :: rest, index =>
    climb (if index % 2 = 1 then hashPair sibling hash else hashPair hash sibling) rest (index / 2)

end AuditChain.Merkle
