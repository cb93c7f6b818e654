import Mathlib.Data.List.Nodup
import AuditChain.Proofs.MerkleBinding
/-!
# A root and its mark bind the leaves

Two leaf lists of one root and one height are the same, or at some level the longer one repeats what
pads the shorter one. That is two equal nodes side by side, so the tree of the longer list is marked.
The mark gives no false alarm: distinct nodes are hashed in distinct pairs, so over distinct leaves
every level has distinct nodes.

Both hold unless the hashing of the trees itself shows a collision.
-/

namespace AuditChain.Merkle

/-! ## Distinct leaves -/

theorem hasTwins_of_nodup {level : List Hash256} (h : level.Nodup) : hasTwins level = false := by
  fun_induction hasTwins level with
  | case1 x y rest ih =>
    obtain ⟨hx, hrest⟩ := List.nodup_cons.1 h
    have hxy : x ≠ y := fun he => hx (he ▸ List.mem_cons_self)
    rw [beq_eq_false_iff_ne.2 hxy, ih hrest.of_cons, Bool.or_self]
  | case2 => rfl

/-- Each pair has a first node of its own. -/
theorem nodup_pairBytes {level : List Hash256} (h : level.Nodup) : (pairBytes level).Nodup := by
  fun_induction pairBytes level with
  | case1 => exact List.nodup_nil
  | case2 x => exact List.nodup_singleton _
  | case3 x y rest ih =>
    obtain ⟨hx, hrest⟩ := List.nodup_cons.1 h
    refine List.nodup_cons.2 ⟨?_, ih hrest.of_cons⟩
    intro hmem
    obtain ⟨x', hx', y', -, he⟩ := exists_pair_of_mem_pairBytes hmem
    obtain ⟨rfl, -⟩ := pair_inj he
    exact hx (List.mem_cons_of_mem _ hx')

theorem nodup_parents {all : List Bytes} (hn : ¬ Collision all) {level : List Hash256} (hs : pairBytes level ⊆ all)
    (h : level.Nodup) : (parents level).Nodup := by
  rw [parents_eq_map]
  exact (nodup_pairBytes h).map_on fun s ht t ht' he => eq_of_hash256_eq hn (hs ht) (hs ht') he

/-- Distinct leaves have distinct nodes at every level above them. -/
theorem nodup_iterate {leaves : List Hash256} (hn : ¬ Collision (hashedPairs leaves)) (h : leaves.Nodup) {k : Nat}
    (hk : k ≤ depth leaves) : (parents^[k] leaves).Nodup := by
  induction k with
  | zero => exact h
  | succ k ih =>
    rw [Function.iterate_succ_apply']
    exact nodup_parents hn (pairBytes_subset_hashedPairs hk) (ih (by omega))

/-- Distinct leaves are not marked. -/
theorem mutated_of_nodup {leaves : List Hash256} (hn : ¬ Collision (hashedPairs leaves)) (h : leaves.Nodup) :
    (Tree.ofLeaves leaves).mutated = false := by
  rw [Tree.mutated_eq_false_iff]
  intro k hk
  exact hasTwins_of_nodup (nodup_iterate hn h hk)

/-! ## Leaves of one root -/

/-- With trees of one height, the leaves under a root are determined by it, if a longer list has no twins. -/
theorem leaves_eq_of_depth_eq {xs ys : List Hash256} (hn : ¬ Collision (hashedPairs xs ++ hashedPairs ys)) (hx : xs ≠ [])
    (hy : ys ≠ []) (hd : depth xs = depth ys) (hlen : xs.length ≤ ys.length)
    (hm : xs.length < ys.length → (Tree.ofLeaves ys).mutated = false)
    (hroot : (Tree.ofLeaves xs).root = (Tree.ofLeaves ys).root) : xs = ys := by
  have htop : parents^[depth xs] xs = parents^[depth xs] ys := by
    rw [Tree.iterate_depth hx, hd, Tree.iterate_depth hy, hroot]
  refine eq_of_iterate_eq hn hlen ?_ ?_ ?_ htop
  · intro k hk s hs
    exact List.mem_append_left _ (pairBytes_subset_hashedPairs hk hs)
  · intro k hk s hs
    exact List.mem_append_right _ (pairBytes_subset_hashedPairs (hd ▸ hk) hs)
  · intro hlt k hk
    exact Tree.mutated_eq_false_iff.1 (hm hlt) k (by omega)

/-! ## Main theorem -/

/-- Two lists of leaves with one root are equal, or the longer of them is marked as mutated, or the two trees
were built with a collision. If the lists are equally long, the mark is not needed. -/
theorem leaves_eq_of_root_eq {xs ys : List Hash256} (hx : xs ≠ []) (hy : ys ≠ [])
    (hroot : (Tree.ofLeaves xs).root = (Tree.ofLeaves ys).root) :
    ((levels xs).length = (levels ys).length →
      xs = ys ∨ (xs.length < ys.length ∧ (Tree.ofLeaves ys).mutated = true) ∨
        (ys.length < xs.length ∧ (Tree.ofLeaves xs).mutated = true) ∨ Collision (hashedPairs xs ++ hashedPairs ys)) ∧
    (xs.length = ys.length → xs = ys ∨ Collision (hashedPairs xs ++ hashedPairs ys)) := by
  by_cases hn : Collision (hashedPairs xs ++ hashedPairs ys)
  · exact ⟨fun _ => .inr (.inr (.inr hn)), fun _ => .inr hn⟩
  have hn' : ¬ Collision (hashedPairs ys ++ hashedPairs xs) := fun h =>
    hn (h.mono (List.append_subset.2 ⟨List.subset_append_right _ _, List.subset_append_left _ _⟩))
  constructor
  · intro hlevels
    have hd : depth xs = depth ys := by
      rw [length_levels, length_levels] at hlevels
      omega
    rcases Nat.le_total xs.length ys.length with hlen | hlen
    · by_cases hm : xs.length < ys.length ∧ (Tree.ofLeaves ys).mutated = true
      · exact .inr (.inl hm)
      · exact .inl (leaves_eq_of_depth_eq hn hx hy hd hlen (fun hlt => by simpa [hlt] using hm) hroot)
    · by_cases hm : ys.length < xs.length ∧ (Tree.ofLeaves xs).mutated = true
      · exact .inr (.inr (.inl hm))
      · exact .inl (leaves_eq_of_depth_eq hn' hy hx hd.symm hlen (fun hlt => by simpa [hlt] using hm) hroot.symm).symm
  · intro hlen
    have hd : depth xs = depth ys := by
      unfold depth
      rw [hlen]
    exact .inl (leaves_eq_of_depth_eq hn hx hy hd hlen.le (fun hlt => absurd hlen hlt.ne) hroot)

/-- Six leaves, and the same with the last two repeated, which are twins one level above the leaves. -/
theorem leaves_eq_of_root_eq_repeated_pair :
    let leaf (b : UInt8) : Hash256 := ⟨List.replicate 32 b, List.length_replicate⟩
    let xs := [1, 2, 3, 4, 5, 6].map leaf
    let ys := xs ++ [5, 6].map leaf
    xs ≠ [] ∧ ys ≠ [] ∧ (Tree.ofLeaves xs).root = (Tree.ofLeaves ys).root ∧ (levels xs).length = (levels ys).length ∧
    xs ≠ ys ∧ hasTwins ys = false ∧
    ((Tree.ofLeaves ys).mutated = true ∨ Collision (hashedPairs xs ++ hashedPairs ys)) := by
  intro leaf xs ys
  have hx : xs ≠ [] := by decide
  have hy : ys ≠ [] := by decide
  have hroot : (Tree.ofLeaves xs).root = (Tree.ofLeaves ys).root := by
    have hdx : depth xs = 3 := by decide +kernel
    have hdy : depth ys = 3 := by decide +kernel
    have htop : parents^[depth xs] xs = parents^[depth ys] ys := by
      rw [hdx, hdy]
      rfl
    rw [Tree.iterate_depth hx, Tree.iterate_depth hy] at htop
    exact List.singleton_inj.1 htop
  have hlen : xs.length < ys.length := by decide
  refine ⟨hx, hy, hroot, rfl, fun h => absurd (congrArg List.length h) hlen.ne, by decide, ?_⟩
  rcases (leaves_eq_of_root_eq hx hy hroot).1 rfl with h | ⟨-, hm⟩ | ⟨hlt, -⟩ | hc
  · exact absurd (congrArg List.length h) hlen.ne
  · exact .inl hm
  · exact absurd hlen hlt.asymm
  · exact .inr hc

end AuditChain.Merkle
