import Mathlib.Data.List.Iterate
import Mathlib.Data.Nat.Log
import AuditChain.Merkle
/-!
# The flat tree is the tree of levels

`Tree.build?` writes all levels into one array and finds them again by offsets. Here each level is
the list of the parents of the one before, so the nodes of the tree are `levels leaves` one after the
other, and the tree has `depth leaves` levels above its leaves.

`Rises` says what the levels of a tree are without saying how to compute them: which two places of a
level are hashed into which place of the next, and where it ends. The building of the flat tree never
looks outside its nodes, and it leaves those levels.
-/

namespace AuditChain.Merkle

/-! ## Levels -/

theorem length_parents (level : List Hash256) : (parents level).length = (level.length + 1) / 2 := by
  fun_induction parents level with
  | case1 => rfl
  | case2 x => simp
  | case3 x y rest ih =>
    simp only [List.length_cons, ih]
    omega

theorem hasTwins_of_length_le {level : List Hash256} (h : level.length ≤ 1) : hasTwins level = false := by
  match level, h with
  | [], _ => rfl
  | [_], _ => rfl

/-- The number of levels above the leaves. -/
def depth (leaves : List Hash256) : Nat := Nat.clog 2 leaves.length

theorem depth_of_length_le {leaves : List Hash256} (h : leaves.length ≤ 1) : depth leaves = 0 :=
  Nat.clog_of_right_le_one h 2

theorem depth_parents {leaves : List Hash256} (h : 2 ≤ leaves.length) : depth leaves = depth (parents leaves) + 1 := by
  unfold depth
  rw [Nat.clog_of_two_le Nat.one_lt_two h, length_parents]
  rfl

/-- Enough fuel for the leaves is enough for every level. -/
theorem levelsFrom_eq {fuel : Nat} {level : List Hash256} (h : level.length ≤ fuel + 1) :
    levelsFrom fuel level = List.iterate parents level (depth level + 1) := by
  induction fuel generalizing level with
  | zero =>
    rw [depth_of_length_le h]
    rfl
  | succ fuel ih =>
    unfold levelsFrom
    split
    · rename_i h1
      rw [depth_of_length_le h1]
      rfl
    · rename_i h1
      have hp := length_parents level
      have hd : depth level = depth (parents level) + 1 := depth_parents (by omega)
      rw [ih (by omega), hd]
      rfl

theorem levels_eq (leaves : List Hash256) : levels leaves = List.iterate parents leaves (depth leaves + 1) :=
  levelsFrom_eq (by omega)

theorem length_levels (leaves : List Hash256) : (levels leaves).length = depth leaves + 1 := by
  rw [levels_eq, List.length_iterate]

theorem mem_levels {leaves level : List Hash256} : level ∈ levels leaves ↔ ∃ k ≤ depth leaves, level = parents^[k] leaves := by
  simp only [levels_eq, List.mem_iterate, Nat.lt_succ_iff]

theorem dropLast_levels (leaves : List Hash256) : (levels leaves).dropLast = List.iterate parents leaves (depth leaves) := by
  rw [levels_eq, List.iterate_add, List.iterate, List.iterate, List.dropLast_concat]

theorem getLast?_levels (leaves : List Hash256) : (levels leaves).getLast? = some (parents^[depth leaves] leaves) := by
  rw [levels_eq, List.iterate_add, List.iterate, List.iterate, List.getLast?_concat]

theorem map_parents_iterate (level : List Hash256) (n : Nat) :
    (List.iterate parents level n).map parents = List.iterate parents (parents level) n := by
  induction n generalizing level with
  | zero => rfl
  | succ n ih => rw [List.iterate, List.map_cons, ih, List.iterate]

/-- Above the leaves there are the parents of every level but the last. -/
theorem levels_eq_cons (leaves : List Hash256) : levels leaves = leaves :: (levels leaves).dropLast.map parents := by
  rw [dropLast_levels, map_parents_iterate, levels_eq, List.iterate]

theorem length_iterate_depth {leaves : List Hash256} (h : leaves ≠ []) :
    (parents^[depth leaves] leaves).length = 1 := by
  induction hn : depth leaves generalizing leaves with
  | zero =>
    have h1 : leaves.length ≤ 1 := by
      have := (Nat.clog_le_iff_le_pow Nat.one_lt_two).1 (Nat.le_of_eq hn)
      simpa using this
    have h0 := List.length_pos_iff.2 h
    simp only [Function.iterate_zero, id]
    omega
  | succ n ih =>
    have h2 : 2 ≤ leaves.length := by
      by_contra hlt
      rw [depth_of_length_le (by omega)] at hn
      cases hn
    rw [Function.iterate_succ_apply]
    apply ih
    · intro hnil
      have := congrArg List.length hnil
      rw [length_parents, List.length_nil] at this
      omega
    · rw [depth_parents h2] at hn
      omega

/-! ## Places in a level -/

/-- The parent at place `j` is made of the nodes at `2 * j` and after it, or of the first alone where there is no second. -/
theorem getElem?_parents (level : List Hash256) (j : Nat) :
    (parents level)[j]? = level[2 * j]?.map fun x => hashPair x (level[2 * j + 1]?.getD x) := by
  fun_induction parents level generalizing j with
  | case1 => rfl
  | case2 x => cases j <;> rfl
  | case3 x y rest ih =>
    cases j with
    | zero => rfl
    | succ j => exact ih j

/-- Twins are two nodes that are really there, at the places of one pair. -/
theorem hasTwins_eq_true_iff {level : List Hash256} :
    hasTwins level = true ↔ ∃ j x, level[2 * j]? = some x ∧ level[2 * j + 1]? = some x := by
  fun_induction hasTwins level with
  | case1 x y rest ih =>
    rw [Bool.or_eq_true, beq_iff_eq, ih]
    constructor
    · rintro (rfl | ⟨j, z, hz⟩)
      · exact ⟨0, x, rfl, rfl⟩
      · exact ⟨j + 1, z, hz⟩
    · rintro ⟨j, z, hfirst, hsecond⟩
      cases j with
      | zero => exact .inl ((Option.some.inj hfirst).trans (Option.some.inj hsecond).symm)
      | succ j => exact .inr ⟨j, z, hfirst, hsecond⟩
  | case2 level hshort =>
    constructor
    · nofun
    · rintro ⟨j, x, -, hsecond⟩
      -- Such a level has no second node at all.
      match level, hshort with
      | [], _ => simp at hsecond
      | [y], _ => simp at hsecond
      | y :: z :: rest, hshort => exact absurd rfl (hshort y z rest)

/-- `above` has a node for each pair of `level`, in order, where a last node that is left alone is its own pair. -/
structure IsAbove (above level : List Hash256) : Prop where
  length_eq : above.length = (level.length + 1) / 2
  node : ∀ {j x}, level[2 * j]? = some x → above[j]? = some (hashPair x (level[2 * j + 1]?.getD x))

theorem isAbove_iff {above level : List Hash256} : IsAbove above level ↔ above = parents level := by
  constructor
  · intro h
    refine List.ext_getElem? fun j => ?_
    rw [getElem?_parents]
    cases hx : level[2 * j]? with
    | none =>
      have hlen := List.getElem?_eq_none_iff.1 hx
      have habove := h.length_eq
      rw [List.getElem?_eq_none (by omega), Option.map_none]
    | some x => rw [h.node hx, Option.map_some]
  · rintro rfl
    exact ⟨length_parents level, fun hx => by rw [getElem?_parents, hx, Option.map_some]⟩

/-- The levels of a tree: each is above the one before, and the last has at most one node. -/
inductive Rises : List Hash256 → List (List Hash256) → Prop
  | top {level : List Hash256} (single : level.length ≤ 1) : Rises level [level]
  | up {level above : List Hash256} {rest : List (List Hash256)} (more : 2 ≤ level.length) (paired : IsAbove above level)
      (higher : Rises above rest) : Rises level (level :: rest)

theorem rises_levelsFrom {fuel : Nat} {level : List Hash256} (h : level.length ≤ fuel + 1) :
    Rises level (levelsFrom fuel level) := by
  induction fuel generalizing level with
  | zero => exact .top h
  | succ fuel ih =>
    unfold levelsFrom
    split
    · exact .top ‹_›
    · have hp := length_parents level
      exact .up (by omega) (isAbove_iff.2 rfl) (ih (by omega))

theorem Rises.unique {level : List Hash256} {ls ls' : List (List Hash256)} (h : Rises level ls) (h' : Rises level ls') :
    ls = ls' := by
  induction h generalizing ls' with
  | top single =>
    cases h' with
    | top => rfl
    | up more => omega
  | up more paired higher ih =>
    cases h' with
    | top single => omega
    | up _ paired' higher' =>
      obtain rfl := (isAbove_iff.1 paired).trans (isAbove_iff.1 paired').symm
      rw [ih higher']

theorem rises_iff {leaves : List Hash256} {ls : List (List Hash256)} : Rises leaves ls ↔ ls = levels leaves := by
  have hrises : Rises leaves (levels leaves) := rises_levelsFrom (Nat.le_succ _)
  constructor
  · exact fun h => h.unique hrises
  · rintro rfl
    exact hrises

/-! ## The flat tree -/

namespace Tree

/-- The nodes of a level are found by its offset. -/
theorem getElem?_level {before level above : List Hash256} {nodes : Array Hash256} {j : Nat}
    (hn : nodes.toList = before ++ (level ++ above)) (hj : j < level.length) :
    nodes[before.length + j]? = level[j]? := by
  rw [← Array.getElem?_toList, hn, List.getElem?_append_right (by omega), Nat.add_sub_cancel_left,
    List.getElem?_append_left hj]

/-- With a level in the array after `before`, the parents of its nodes from `rest` on are appended. -/
theorem appendParents_eq (before done rest above : List Hash256) (nodes : Array Hash256) (mutated : Bool)
    (hn : nodes.toList = before ++ ((done ++ rest) ++ above)) :
    appendParents before.length (done ++ rest).length ((rest.length + 1) / 2) done.length nodes mutated =
      some (nodes ++ (parents rest).toArray, mutated || hasTwins rest) := by
  fun_induction parents rest generalizing done nodes above mutated with
  | case1 => simp [appendParents, hasTwins]
  | case2 x =>
    have hj : min (done.length + 1) ((done ++ [x]).length - 1) = done.length := by simp
    have hx : nodes[before.length + done.length]? = some x := by rw [getElem?_level hn (by simp)]; simp
    simp only [List.length_singleton, appendParents, hj, hx]
    simp [hasTwins]
  | case3 x y rest ih =>
    have hpairs : (rest.length + 1 + 1 + 1) / 2 = (rest.length + 1) / 2 + 1 := by omega
    have hsize : (done ++ x :: y :: rest).length = ((done ++ [x, y]) ++ rest).length := by simp
    have hj : min (done.length + 1) (((done ++ [x, y]) ++ rest).length - 1) = done.length + 1 := by simp
    have hx : nodes[before.length + done.length]? = some x := by rw [getElem?_level hn (by simp)]; simp
    have hy : nodes[before.length + (done.length + 1)]? = some y := by rw [getElem?_level hn (by simp)]; simp
    have step := ih (done ++ [x, y]) (above ++ [hashPair x y]) (nodes.push (hashPair x y)) (mutated || x == y)
      (by simp [hn])
    rw [show (done ++ [x, y]).length = done.length + 2 by simp] at step
    simp only [List.length_cons, hpairs, appendParents, hsize, hj, hx, hy, Option.bind_eq_bind, Option.bind_some,
      beq_self_eq_true, Bool.true_and]
    rw [step]
    simp [hasTwins, Bool.or_assoc]

/-- With a level at the end of the array, the levels above it are appended. -/
theorem appendLevels_eq {fuel : Nat} (before level : List Hash256) (nodes : Array Hash256) (mutated : Bool)
    (hn : nodes.toList = before ++ level) (hf : level.length ≤ fuel + 1) :
    appendLevels fuel before.length level.length nodes mutated =
      some (nodes ++ (levelsFrom fuel level).tail.flatten.toArray, mutated || (levelsFrom fuel level).any hasTwins) := by
  induction fuel generalizing before level nodes mutated with
  | zero => simp [appendLevels, levelsFrom, hasTwins_of_length_le hf]
  | succ fuel ih =>
    unfold appendLevels levelsFrom
    split
    · rename_i h1
      simp [hasTwins_of_length_le h1]
    · rename_i h1
      have hp := length_parents level
      have step := appendParents_eq before [] level [] nodes mutated (by simpa using hn)
      rw [List.nil_append, List.length_nil] at step
      have above := ih (before ++ level) (parents level) (nodes ++ (parents level).toArray) (mutated || hasTwins level)
        (by simp [hn]) (by omega)
      rw [List.length_append, hp] at above
      rw [step, Option.bind_eq_bind, Option.bind_some]
      dsimp only
      rw [above]
      -- The first of the levels from here on is the one that was appended last.
      have hhead : parents level :: (levelsFrom fuel (parents level)).tail = levelsFrom fuel (parents level) := by
        unfold levelsFrom
        split
        · rfl
        · split <;> rfl
      rw [List.tail_cons, List.any_cons, ← hhead]
      simp [Bool.or_assoc]

/-- As many steps as there are leaves are enough to reach the last level, and more change nothing. -/
theorem appendLevels_leaves {leaves : List Hash256} {fuel : Nat} (h : leaves.length ≤ fuel) :
    appendLevels fuel 0 leaves.length leaves.toArray false =
      some ((levels leaves).flatten.toArray, (levels leaves).any hasTwins) := by
  have hf : leaves.length ≤ fuel + 1 := by omega
  have happend := appendLevels_eq [] leaves leaves.toArray false rfl hf
  have hlevels : levelsFrom fuel leaves = levels leaves := by rw [levelsFrom_eq hf, levels_eq]
  have hcons : levels leaves = leaves :: (levels leaves).tail := by
    rw [levels_eq]
    rfl
  rw [List.length_nil, Bool.false_or, hlevels] at happend
  rw [happend, hcons]
  simp

theorem build?_eq (leaves : List Hash256) :
    build? leaves = some ⟨(levels leaves).flatten.toArray, leaves.length, (levels leaves).any hasTwins⟩ := by
  unfold build?
  rw [appendLevels_leaves le_rfl]
  rfl

theorem ofLeaves_eq (leaves : List Hash256) :
    ofLeaves leaves = ⟨(levels leaves).flatten.toArray, leaves.length, (levels leaves).any hasTwins⟩ := by
  unfold ofLeaves
  rw [build?_eq]
  rfl

theorem root_nil : (ofLeaves []).root = 0 := by
  rw [ofLeaves_eq]
  rfl

/-- The root is all there is of the last level. -/
theorem iterate_depth {leaves : List Hash256} (h : leaves ≠ []) :
    parents^[depth leaves] leaves = [(ofLeaves leaves).root] := by
  obtain ⟨r, hr⟩ := List.length_eq_one_iff.1 (length_iterate_depth h)
  have hroot : (ofLeaves leaves).root = r := by
    rw [ofLeaves_eq, levels_eq, List.iterate_add, hr]
    simp [root, List.iterate]
  rw [hr, hroot]

/-- An unmutated tree has no twins at any level. -/
theorem mutated_eq_false_iff {leaves : List Hash256} :
    (ofLeaves leaves).mutated = false ↔ ∀ k ≤ depth leaves, hasTwins (parents^[k] leaves) = false := by
  rw [ofLeaves_eq, List.any_eq_false]
  constructor
  · intro h k hk
    simpa using h _ (mem_levels.2 ⟨k, hk, rfl⟩)
  · intro h level hlevel
    obtain ⟨k, hk, rfl⟩ := mem_levels.1 hlevel
    simp [h k hk]

/-! ## Main theorem -/

/-- The flat tree is built without a look outside its nodes, and it ends by itself, so more steps would change
nothing. Its nodes are the levels over the leaves, one after the other; there is one such list of levels. The root
is all there is of the last level, and the tree is marked just when two nodes that make up a pair of some level are
equal. -/
theorem built_in_levels (leaves : List Hash256) :
    ∃ tree, build? leaves = some tree ∧
      (∀ fuel, leaves.length ≤ fuel →
        appendLevels fuel 0 leaves.length leaves.toArray false = some (tree.nodes, tree.mutated)) ∧
      ∃ ls, (∀ ls', Rises leaves ls' ↔ ls' = ls) ∧
        tree.nodes.toList = ls.flatten ∧ tree.leafCount = leaves.length ∧
        ((leaves = [] ∧ tree.root = 0) ∨ ls.getLast? = some [tree.root]) ∧
        (tree.mutated = true ↔ ∃ level ∈ ls, ∃ j x, level[2 * j]? = some x ∧ level[2 * j + 1]? = some x) := by
  have htree := ofLeaves_eq leaves
  refine ⟨ofLeaves leaves, ?_, ?_, levels leaves, fun _ => rises_iff, ?_, ?_, ?_, ?_⟩
  · rw [build?_eq, htree]
  · intro fuel hf
    rw [appendLevels_leaves hf, htree]
  · rw [htree]
  · rw [htree]
  · by_cases h : leaves = []
    · exact .inl ⟨h, by rw [h, root_nil]⟩
    · exact .inr (by rw [getLast?_levels, iterate_depth h])
  · rw [htree]
    simp only [List.any_eq_true, hasTwins_eq_true_iff]

/-- Padding is no twin, and a last leaf that is really there twice is one. -/
example :
    let leaf (b : UInt8) : Hash256 := ⟨List.replicate 32 b, List.length_replicate⟩
    (ofLeaves ([1, 2, 3].map leaf)).mutated = false ∧ (ofLeaves ([1, 2, 3, 3].map leaf)).mutated = true := by
  decide +kernel

end Tree

end AuditChain.Merkle
