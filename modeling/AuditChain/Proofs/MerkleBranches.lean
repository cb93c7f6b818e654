import Mathlib.Data.Nat.Bitwise
import Mathlib.Order.Bounds.Basic
import AuditChain.Proofs.MerkleBinding
/-!
# Branches lead to the root, and nothing else does

The branch of a leaf has at each level the node that is paired with the one on the way up, which is that node
itself where it stands alone at the end. `Path` says so level by level. Climbing a path hashes only strings that
were hashed when the tree was built, and it ends at the root.

Two climbs at one place that meet have come the same way, unless they hash two different strings to one hash. So only the
leaf and its branch lead to the root.
-/

namespace AuditChain.Merkle

/-! ## One level up -/

/-- What is hashed to go up from node `x` at place `i` of a level. -/
def joined (x sibling : Hash256) (i : Nat) : Bytes :=
  if i % 2 = 1 then sibling.toList ++ x.toList else x.toList ++ sibling.toList

theorem length_joined (x sibling : Hash256) (i : Nat) : (joined x sibling i).length = 64 := by
  unfold joined
  split <;> rw [List.length_append, x.length_toList, sibling.length_toList]

theorem joined_inj {x y s t : Hash256} {i : Nat} (h : joined x s i = joined y t i) : x = y ∧ s = t := by
  unfold joined at h
  split at h
  · exact (pair_inj h).symm
  · exact pair_inj h

theorem climb_cons (x sibling : Hash256) (rest : List Hash256) (i : Nat) :
    climb x (sibling :: rest) i = climb (hash256 (joined x sibling i)) rest (i / 2) := by
  rw [climb]
  unfold joined
  split <;> rfl

/-- The place of the node that is paired with the one at place `i`. -/
def partner (size i : Nat) : Nat := min (i ^^^ 1) (size - 1)

theorem partner_of_even {size i : Nat} (h : i % 2 = 0) : partner size i = min (i + 1) (size - 1) := by
  rw [partner, Nat.xor_one_of_even (Nat.even_iff.2 h)]

theorem partner_of_odd {size i : Nat} (h : i % 2 = 1) (hi : i < size) : partner size i = i - 1 := by
  rw [partner, Nat.xor_one_of_odd (Nat.odd_iff.2 h)]
  omega

theorem partner_lt {size i : Nat} (hi : i < size) : partner size i < size := by
  unfold partner
  omega

theorem partner_add_two {size i : Nat} (hi : i < size) : partner (size + 2) (i + 2) = partner size i + 2 := by
  rcases Nat.mod_two_eq_zero_or_one i with h | h
  · rw [partner_of_even h, partner_of_even (by omega)]
    omega
  · rw [partner_of_odd h hi, partner_of_odd (by omega) (by omega)]
    omega

/-- A node and its partner are hashed together. -/
theorem getElem?_pairBytes {level : List Hash256} {i : Nat} {x s : Hash256} (hx : level[i]? = some x)
    (hs : level[partner level.length i]? = some s) : (pairBytes level)[i / 2]? = some (joined x s i) := by
  fun_induction pairBytes level generalizing i with
  | case1 => simp at hx
  | case2 y =>
    obtain ⟨rfl, rfl⟩ : i = 0 ∧ y = x := by
      cases i <;> simp_all
    obtain rfl : y = s := by simpa [partner] using hs
    rfl
  | case3 y z rest ih =>
    rcases i with _ | _ | i
    · have hp : partner (y :: z :: rest).length 0 = 1 := by
        rw [partner_of_even rfl, List.length_cons, List.length_cons]
        omega
      rw [hp] at hs
      simp only [List.getElem?_cons_zero, List.getElem?_cons_succ, Option.some.injEq] at hx hs
      rw [hx, hs]
      rfl
    · have hp : partner (y :: z :: rest).length 1 = 0 := partner_of_odd rfl (by simp)
      rw [hp] at hs
      simp only [List.getElem?_cons_zero, List.getElem?_cons_succ, Option.some.injEq] at hx hs
      rw [hx, hs]
      rfl
    · have hi : i < rest.length := by
        obtain ⟨hlt, -⟩ := List.getElem?_eq_some_iff.1 hx
        simp only [List.length_cons] at hlt
        omega
      rw [List.length_cons, List.length_cons, partner_add_two hi] at hs
      have hdiv : (i + 2) / 2 = i / 2 + 1 := by omega
      have hmod : joined x s (i + 2) = joined x s i := by
        unfold joined
        rw [Nat.add_mod_right]
      rw [hdiv, hmod, List.getElem?_cons_succ]
      exact ih (by simpa using hx) (by simpa using hs)

/-! ## Paths -/

/-- The siblings on the way up from place `i` of a level to the root. -/
inductive Path : List Hash256 → Nat → List Hash256 → Prop
  | root (x : Hash256) : Path [x] 0 []
  | up {level : List Hash256} {i : Nat} {sibling : Hash256} {rest : List Hash256} (more : 2 ≤ level.length)
      (beside : level[partner level.length i]? = some sibling) (above : Path (parents level) (i / 2) rest) :
      Path level i (sibling :: rest)

/-- The strings that are hashed on the way up from `x`. -/
def climbed : Hash256 → (branch : List Hash256) → (index : Nat) → List Bytes
  | _, [], _ => []
  | x, sibling :: rest, i => joined x sibling i :: climbed (hash256 (joined x sibling i)) rest (i / 2)

theorem length_of_mem_climbed {x : Hash256} {branch : List Hash256} {i : Nat} {s : Bytes}
    (h : s ∈ climbed x branch i) : s.length = 64 := by
  induction branch generalizing x i with
  | nil => cases h
  | cons sibling rest ih =>
    rcases List.mem_cons.1 h with rfl | h
    · exact length_joined x sibling i
    · exact ih h

/-- A node that is alone in its level is the root. -/
theorem path_of_length_le {level : List Hash256} {i : Nat} (hi : i < level.length) (h : level.length ≤ 1) :
    Path level i [] := by
  obtain ⟨x, rfl⟩ := List.length_eq_one_iff.1 (by omega : level.length = 1)
  obtain rfl : i = 0 := by simpa using hi
  exact .root x

namespace Path

variable {level branch : List Hash256} {i : Nat} {x : Hash256} (h : Path level i branch)

include h

/-- A path has a sibling for each level above its own. -/
theorem length_eq : branch.length = depth level := by
  induction h with
  | root => rfl
  | up more _ _ ih => rw [List.length_cons, ih, depth_parents more]

theorem climb_eq (hx : level[i]? = some x) : parents^[depth level] level = [climb x branch i] := by
  induction h generalizing x with
  | root y =>
    obtain rfl : y = x := by simpa using hx
    rfl
  | @up level i sibling rest more beside _ ih =>
    have hup : (parents level)[i / 2]? = some (hash256 (joined x sibling i)) := by
      rw [parents_eq_map, List.getElem?_map, getElem?_pairBytes hx beside, Option.map_some]
    rw [depth_parents more, Function.iterate_succ_apply, ih hup, climb_cons]

/-- What is hashed on the way up was hashed for the levels on the way. -/
theorem climbed_subset (hx : level[i]? = some x) {s : Bytes} (hs : s ∈ climbed x branch i) :
    ∃ k < depth level, s ∈ pairBytes (parents^[k] level) := by
  induction h generalizing x with
  | root => cases hs
  | @up level i sibling rest more beside _ ih =>
    have hpair := getElem?_pairBytes hx beside
    have hup : (parents level)[i / 2]? = some (hash256 (joined x sibling i)) := by
      rw [parents_eq_map, List.getElem?_map, hpair, Option.map_some]
    rw [depth_parents more]
    rcases List.mem_cons.1 hs with rfl | hs
    · exact ⟨0, Nat.succ_pos _, List.mem_of_getElem? hpair⟩
    · obtain ⟨k, hk, hmem⟩ := ih hup hs
      exact ⟨k + 1, Nat.succ_lt_succ hk, hmem⟩

end Path

/-! ## The branch of a leaf -/

namespace Tree

/-- With a level and those above it in the array after `before`, the siblings that are found are those of a path. -/
theorem siblings_path (fuel : Nat) (before level : List Hash256) (nodes : Array Hash256) {i : Nat}
    (hn : nodes.toList = before ++ (levelsFrom fuel level).flatten) (hf : level.length ≤ fuel + 1)
    (hi : i < level.length) :
    ∃ branch, siblings nodes fuel before.length level.length i = some branch ∧ Path level i branch := by
  induction fuel generalizing before level i with
  | zero => exact ⟨[], rfl, path_of_length_le hi hf⟩
  | succ fuel ih =>
    unfold siblings
    split
    · exact ⟨[], rfl, path_of_length_le hi ‹_›⟩
    · rename_i h1
      have hp := length_parents level
      rw [levelsFrom, if_neg h1, List.flatten_cons] at hn
      have hlt : partner level.length i < level.length := partner_lt hi
      have hbeside : level[partner level.length i]? = some level[partner level.length i] := List.getElem?_eq_getElem hlt
      obtain ⟨above, habove, hpath⟩ := ih (before ++ level) (parents level) (by rw [hn, List.append_assoc]) (by omega)
        (i := i / 2) (by omega)
      rw [List.length_append, hp] at habove
      have hfound := (getElem?_level hn hlt).trans hbeside
      unfold partner at hfound
      rw [hfound, Option.bind_eq_bind, Option.bind_some, habove]
      exact ⟨_, rfl, .up (by omega) hbeside hpath⟩

theorem path_branch {leaves : List Hash256} {i : Nat} (hi : i < leaves.length) :
    Path leaves i ((ofLeaves leaves).branch i) := by
  obtain ⟨branch, hbranch, hpath⟩ := siblings_path leaves.length [] leaves (levels leaves).flatten.toArray rfl
    (Nat.le_succ _) hi
  have heq : (ofLeaves leaves).branch i = branch := by
    rw [ofLeaves_eq]
    unfold Tree.branch
    dsimp only
    rw [if_neg (Nat.not_le.2 hi)]
    exact congrArg (·.getD []) hbranch
  rw [heq]
  exact hpath

end Tree

/-! ## Climbs that meet -/

/-- Two climbs at one place that end at one node began at one node and met the same siblings, or they hashed two
different strings to one hash. -/
theorem eq_of_climb_eq {x y : Hash256} {xs ys : List Hash256} {i : Nat} (hlen : xs.length = ys.length)
    (h : climb x xs i = climb y ys i) :
    (x = y ∧ xs = ys) ∨ ∃ s ∈ climbed x xs i, ∃ t ∈ climbed y ys i, s ≠ t ∧ hash256 s = hash256 t := by
  induction xs generalizing x y ys i with
  | nil =>
    obtain rfl := List.eq_nil_of_length_eq_zero hlen.symm
    exact .inl ⟨h, rfl⟩
  | cons s xs ih =>
    obtain ⟨t, ys, rfl⟩ := List.exists_cons_of_length_eq_add_one hlen.symm
    rw [climb_cons, climb_cons] at h
    rcases ih (Nat.succ.inj hlen) h with ⟨hup, rfl⟩ | ⟨a, ha, b, hb, hne, he⟩
    · by_cases hsame : joined x s i = joined y t i
      · obtain ⟨rfl, rfl⟩ := joined_inj hsame
        exact .inl ⟨rfl, rfl⟩
      · exact .inr ⟨_, List.mem_cons_self, _, List.mem_cons_self, hsame, hup⟩
    · exact .inr ⟨a, List.mem_cons_of_mem _ ha, b, List.mem_cons_of_mem _ hb, hne, he⟩

/-! ## Main theorems -/

/-- Climbing the branch of a leaf from the leaf ends at the root. The branch has a sibling for each level above the
leaves, as many as it takes to halve their number down to one. -/
theorem climb_branch {leaves : List Hash256} {i : Nat} (hi : i < leaves.length) :
    let branch := (Tree.ofLeaves leaves).branch i
    climb leaves[i] branch i = (Tree.ofLeaves leaves).root ∧ branch.length + 1 = (levels leaves).length ∧
      IsLeast {d | leaves.length ≤ 2 ^ d} branch.length := by
  intro branch
  have hpath : Path leaves i branch := Tree.path_branch hi
  have hne : leaves ≠ [] := List.ne_nil_of_length_pos (by omega)
  have hroot := hpath.climb_eq (List.getElem?_eq_getElem hi)
  rw [Tree.iterate_depth hne] at hroot
  refine ⟨(List.singleton_inj.1 hroot).symm, ?_, ?_⟩
  · rw [length_levels, hpath.length_eq]
  · rw [hpath.length_eq]
    exact ⟨Nat.le_pow_clog Nat.one_lt_two _, fun d hd => Nat.clog_le_of_le_pow hd⟩

/-- The last of five leaves is its own partner, and so is the node above it. -/
theorem climb_branch_last_of_five :
    let leaf (b : UInt8) : Hash256 := ⟨List.replicate 32 b, List.length_replicate⟩
    let leaves := [1, 2, 3, 4, 5].map leaf
    let branch := (Tree.ofLeaves leaves).branch 4
    4 < leaves.length ∧ branch.head? = some (leaf 5) ∧ branch.length = 3 ∧
    climb (leaf 5) branch 4 = (Tree.ofLeaves leaves).root ∧ branch.length + 1 = (levels leaves).length ∧
    IsLeast {d | leaves.length ≤ 2 ^ d} branch.length := by
  intro leaf leaves branch
  have hi : 4 < leaves.length := by decide
  exact ⟨hi, by decide +kernel, by decide +kernel, climb_branch hi⟩

/-- What leads to the root from the place of a leaf, in as many steps as its branch, is that leaf and its branch, or
the climb and the building of the tree hash two different pairs to one hash. -/
theorem eq_branch_of_climb_eq {leaves : List Hash256} {i : Nat} (hi : i < leaves.length) {x : Hash256}
    {xs : List Hash256} (hlen : xs.length = ((Tree.ofLeaves leaves).branch i).length)
    (hroot : climb x xs i = (Tree.ofLeaves leaves).root) :
    (x = leaves[i] ∧ xs = (Tree.ofLeaves leaves).branch i) ∨
    ∃ s ∈ climbed x xs i, ∃ t ∈ hashedPairs leaves, s.length = 64 ∧ t.length = 64 ∧ s ≠ t ∧ hash256 s = hash256 t := by
  have hpath : Path leaves i ((Tree.ofLeaves leaves).branch i) := Tree.path_branch hi
  have hne : leaves ≠ [] := List.ne_nil_of_length_pos (by omega)
  have hleaf := List.getElem?_eq_getElem hi
  have hclimb := hpath.climb_eq hleaf
  rw [Tree.iterate_depth hne, List.singleton_inj, ← hroot] at hclimb
  refine (eq_of_climb_eq hlen hclimb).imp_right ?_
  rintro ⟨s, hs, t, ht, hdiff, he⟩
  obtain ⟨k, hk, hmem⟩ := hpath.climbed_subset hleaf ht
  exact ⟨s, hs, t, pairBytes_subset_hashedPairs hk hmem, length_of_mem_climbed hs, length_of_mem_climbed ht, hdiff, he⟩

/-- Siblings put together by hand for the last of five leaves. -/
theorem eq_branch_of_climb_eq_last_of_five :
    let leaf (b : UInt8) : Hash256 := ⟨List.replicate 32 b, List.length_replicate⟩
    let leaves := [1, 2, 3, 4, 5].map leaf
    let xs := [leaf 5, hashPair (leaf 5) (leaf 5), hashPair (hashPair (leaf 1) (leaf 2)) (hashPair (leaf 3) (leaf 4))]
    4 < leaves.length ∧ xs.length = ((Tree.ofLeaves leaves).branch 4).length ∧
    climb (leaf 5) xs 4 = (Tree.ofLeaves leaves).root ∧
    (xs = (Tree.ofLeaves leaves).branch 4 ∨
      ∃ s ∈ climbed (leaf 5) xs 4, ∃ t ∈ hashedPairs leaves, s.length = 64 ∧ t.length = 64 ∧ s ≠ t ∧
        hash256 s = hash256 t) := by
  intro leaf leaves xs
  have hi : 4 < leaves.length := by decide
  have hlen : xs.length = ((Tree.ofLeaves leaves).branch 4).length := by decide +kernel
  have hroot : climb (leaf 5) xs 4 = (Tree.ofLeaves leaves).root := by
    have hd : depth leaves = 3 := by decide +kernel
    have htop : [climb (leaf 5) xs 4] = parents^[depth leaves] leaves := by
      rw [hd]
      rfl
    rw [Tree.iterate_depth (by decide)] at htop
    exact List.singleton_inj.1 htop
  exact ⟨hi, hlen, hroot, (eq_branch_of_climb_eq hi hlen hroot).imp_left And.right⟩

end AuditChain.Merkle
