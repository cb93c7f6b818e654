import AuditChain.Proofs.Hashing
import AuditChain.Proofs.MerkleLevels
/-!
# A root binds the contents under it

A tree is built over the hashes of some contents. Two trees with one root are compared level by
level from the root down, as far as the lower tree reaches. Equal parents were hashed from equal
pairs, and equal pairs make equal levels, because a level without twins is not the padding of a
shorter one. At the leaves of the lower tree the contents are equal, or the higher tree goes on and a
leaf of the one is an inner node of the other, so its content is a pair of hashes.
-/

namespace AuditChain.Merkle

/-! ## What is hashed -/

/-- The strings whose hashes are the parents of a level. -/
def pairBytes : List Hash256 → List Bytes
  | [] => []
  | [x] => [x.toList ++ x.toList]
  | x :: y :: rest => (x.toList ++ y.toList) :: pairBytes rest

theorem parents_eq_map (level : List Hash256) : parents level = (pairBytes level).map hash256 := by
  fun_induction parents level with
  | case1 => rfl
  | case2 x => rfl
  | case3 x y rest ih =>
    rw [ih]
    rfl

/-- What is hashed are two nodes of the level, one after the other. -/
theorem exists_pair_of_mem_pairBytes {level : List Hash256} {s : Bytes} (h : s ∈ pairBytes level) :
    ∃ x ∈ level, ∃ y ∈ level, s = x.toList ++ y.toList := by
  fun_induction pairBytes level with
  | case1 => cases h
  | case2 x => exact ⟨x, List.mem_singleton_self x, x, List.mem_singleton_self x, List.mem_singleton.1 h⟩
  | case3 x y rest ih =>
    rcases List.mem_cons.1 h with rfl | h
    · exact ⟨x, by simp, y, by simp, rfl⟩
    · obtain ⟨x', hx, y', hy, rfl⟩ := ih h
      exact ⟨x', by simp [hx], y', by simp [hy], rfl⟩

theorem length_of_mem_pairBytes {level : List Hash256} {s : Bytes} (h : s ∈ pairBytes level) : s.length = 64 := by
  obtain ⟨x, -, y, -, rfl⟩ := exists_pair_of_mem_pairBytes h
  rw [List.length_append, x.length_toList, y.length_toList]

theorem length_pairBytes (level : List Hash256) : (pairBytes level).length = (level.length + 1) / 2 := by
  rw [← length_parents, parents_eq_map, List.length_map]

/-- The strings that are hashed when a tree is built: the pairs of every level but the last. -/
def hashedPairs (leaves : List Hash256) : List Bytes := (levels leaves).dropLast.flatMap pairBytes

/-- The nodes of a tree are its leaves and the hashes of these strings. -/
theorem nodes_ofLeaves (leaves : List Hash256) :
    (Tree.ofLeaves leaves).nodes.toList = leaves ++ (hashedPairs leaves).map hash256 := by
  have hparents : (hashedPairs leaves).map hash256 = (levels leaves).dropLast.flatMap parents := by
    rw [hashedPairs, List.map_flatMap]
    simp only [← parents_eq_map]
  have hlevels := congrArg List.flatten (levels_eq_cons leaves)
  rw [List.flatten_cons, ← List.flatMap_def] at hlevels
  rw [Tree.ofLeaves_eq, hparents, ← hlevels]

theorem pairBytes_subset_hashedPairs {leaves : List Hash256} {k : Nat} (hk : k < depth leaves) :
    pairBytes (parents^[k] leaves) ⊆ hashedPairs leaves := by
  intro s hs
  have hlevel : parents^[k] leaves ∈ (levels leaves).dropLast := by
    rw [dropLast_levels]
    exact List.mem_iterate.2 ⟨k, hk, rfl⟩
  exact List.mem_flatMap.2 ⟨_, hlevel, hs⟩

/-- What is hashed for a tree over the hashes of `contents`: the contents, and the pairs of every level
but the last. -/
def hashed (contents : List Bytes) : List Bytes :=
  contents ++ (levels (contents.map hash256)).dropLast.flatMap pairBytes

theorem contents_subset_hashed (contents : List Bytes) : contents ⊆ hashed contents :=
  List.subset_append_left _ _

theorem hashedPairs_subset_hashed (contents : List Bytes) : hashedPairs (contents.map hash256) ⊆ hashed contents :=
  List.subset_append_right _ _

theorem pairBytes_subset_hashed {contents : List Bytes} {k : Nat} (hk : k < depth (contents.map hash256)) :
    pairBytes (parents^[k] (contents.map hash256)) ⊆ hashed contents := by
  intro s hs
  exact hashedPairs_subset_hashed contents (pairBytes_subset_hashedPairs hk hs)

/-- A node above the leaves is the hash of a pair. -/
theorem exists_pair_of_mem {contents : List Bytes} {k : Nat} (hk : k < depth (contents.map hash256)) {x : Hash256}
    (hx : x ∈ parents^[k + 1] (contents.map hash256)) : ∃ s ∈ hashed contents, s.length = 64 ∧ hash256 s = x := by
  rw [Function.iterate_succ_apply', parents_eq_map] at hx
  obtain ⟨s, hs, rfl⟩ := List.mem_map.1 hx
  exact ⟨s, pairBytes_subset_hashed hk hs, length_of_mem_pairBytes hs, rfl⟩

theorem exists_hash_eq_root {contents : List Bytes} (h : contents ≠ []) :
    ∃ s ∈ hashed contents, hash256 s = (Tree.ofLeaves (contents.map hash256)).root := by
  have hleaves : contents.map hash256 ≠ [] := by simpa using h
  have hroot := Tree.iterate_depth hleaves
  have hmem := List.mem_singleton_self (Tree.ofLeaves (contents.map hash256)).root
  rw [← hroot] at hmem
  cases hd : depth (contents.map hash256) with
  | zero =>
    rw [hd] at hmem
    obtain ⟨s, hs, he⟩ := List.mem_map.1 hmem
    exact ⟨s, contents_subset_hashed _ hs, he⟩
  | succ k =>
    rw [hd] at hmem
    obtain ⟨s, hs, -, he⟩ := exists_pair_of_mem (by omega) hmem
    exact ⟨s, hs, he⟩

/-! ## Down one level -/

theorem pair_inj {x y x' y' : Hash256} (h : x.toList ++ y.toList = x'.toList ++ y'.toList) : x = x' ∧ y = y' := by
  obtain ⟨h1, h2⟩ := List.append_inj h (x.length_toList.trans x'.length_toList.symm)
  exact ⟨FixedBytes.ext h1, FixedBytes.ext h2⟩

/-- The pairs of a level determine it, up to a last node that may or may not be padding. -/
theorem pairBytes_inj {a b : List Hash256} (hlen : a.length ≤ b.length) (hb : a.length < b.length → hasTwins b = false)
    (h : pairBytes a = pairBytes b) : a = b := by
  have hsize := congrArg List.length h
  rw [length_pairBytes b] at hsize
  fun_induction pairBytes a generalizing b with
  | case1 =>
    rw [List.length_nil] at hsize
    exact (List.length_eq_zero_iff.1 (by omega)).symm
  | case2 x =>
    rcases b with _ | ⟨x', _ | ⟨y', _ | ⟨z', rest'⟩⟩⟩
    · cases h
    · rw [(pair_inj (List.cons.inj h).1).1]
    · obtain ⟨rfl, rfl⟩ := pair_inj (List.cons.inj h).1
      simp [hasTwins] at hb
    · simp only [List.length_cons, List.length_nil] at hsize
      omega
  | case3 x y rest ih =>
    rcases b with _ | ⟨x', _ | ⟨y', rest'⟩⟩
    · cases h
    · simp at hlen
    · obtain ⟨hpair, hrest⟩ := List.cons.inj h
      obtain ⟨rfl, rfl⟩ := pair_inj hpair
      have hb' : rest.length < rest'.length → hasTwins rest' = false := by
        intro hlt
        have htwins := hb (by simpa using hlt)
        rw [hasTwins, Bool.or_eq_false_iff] at htwins
        exact htwins.2
      rw [ih (by simpa using hlen) hb' hrest (by rw [hrest, length_pairBytes])]

/-! ## Down to the leaves -/

variable {all : List Bytes}

/-- Levels with the same level `n` steps above them are equal. Only a longer level could be the padding of the
other, so equally long ones may have twins. -/
theorem eq_of_iterate_eq (hn : ¬ Collision all) {n : Nat} {a b : List Hash256} (hlen : a.length ≤ b.length)
    (ha : ∀ k < n, pairBytes (parents^[k] a) ⊆ all) (hb : ∀ k < n, pairBytes (parents^[k] b) ⊆ all)
    (ht : a.length < b.length → ∀ k < n, hasTwins (parents^[k] b) = false)
    (h : parents^[n] a = parents^[n] b) : a = b := by
  induction n generalizing a b with
  | zero => exact h
  | succ n ih =>
    have hparents : parents a = parents b := by
      refine ih ?_ (fun k hk => ha (k + 1) (by omega)) (fun k hk => hb (k + 1) (by omega)) ?_ h
      · rw [length_parents, length_parents]
        omega
      · intro hlt k hk
        rw [length_parents, length_parents] at hlt
        exact ht (by omega) (k + 1) (by omega)
    rw [parents_eq_map, parents_eq_map] at hparents
    have hpairs := eq_of_map_hash256_eq hn (ha 0 (by omega)) (hb 0 (by omega)) hparents
    exact pairBytes_inj hlen (fun hlt => ht hlt 0 (by omega)) hpairs

/-- The leaves of the lower tree are the level of the higher one that is as far from the root. -/
theorem leaves_eq_level (hn : ¬ Collision all) {xs ys : List Bytes} (hx : hashed xs ⊆ all) (hy : hashed ys ⊆ all)
    (hx0 : xs ≠ []) (hy0 : ys ≠ []) {m : Nat} (hd : depth (ys.map hash256) = m + depth (xs.map hash256))
    (mx : (Tree.ofLeaves (xs.map hash256)).mutated = false) (my : (Tree.ofLeaves (ys.map hash256)).mutated = false)
    (hroot : (Tree.ofLeaves (xs.map hash256)).root = (Tree.ofLeaves (ys.map hash256)).root) :
    xs.map hash256 = parents^[m] (ys.map hash256) := by
  have htop : parents^[depth (xs.map hash256)] (xs.map hash256) =
      parents^[depth (xs.map hash256)] (parents^[m] (ys.map hash256)) := by
    rw [← Function.iterate_add_apply, Nat.add_comm, ← hd, Tree.iterate_depth (by simpa using hx0),
      Tree.iterate_depth (by simpa using hy0), hroot]
  have hxs : ∀ k < depth (xs.map hash256), pairBytes (parents^[k] (xs.map hash256)) ⊆ all := fun k hk s hs =>
    hx (pairBytes_subset_hashed hk hs)
  have tx : ∀ k < depth (xs.map hash256), hasTwins (parents^[k] (xs.map hash256)) = false := fun k hk =>
    Tree.mutated_eq_false_iff.1 mx k (by omega)
  have hys : ∀ k < depth (xs.map hash256), pairBytes (parents^[k] (parents^[m] (ys.map hash256))) ⊆ all := by
    intro k hk s hs
    rw [← Function.iterate_add_apply] at hs
    exact hy (pairBytes_subset_hashed (by omega) hs)
  have ty : ∀ k < depth (xs.map hash256), hasTwins (parents^[k] (parents^[m] (ys.map hash256))) = false := by
    intro k hk
    rw [← Function.iterate_add_apply]
    exact Tree.mutated_eq_false_iff.1 my _ (by omega)
  rcases Nat.le_total (xs.map hash256).length (parents^[m] (ys.map hash256)).length with hlen | hlen
  · exact eq_of_iterate_eq hn hlen hxs hys (fun _ => ty) htop
  · exact (eq_of_iterate_eq hn hlen hys hxs (fun _ => tx) htop.symm).symm

/-- The contents of the lower tree are those of the higher one, unless its first is a pair of hashes. -/
theorem contents_eq_of_depth_le (hn : ¬ Collision all) {xs ys : List Bytes} (hx : hashed xs ⊆ all)
    (hy : hashed ys ⊆ all) (hx0 : xs ≠ []) (hy0 : ys ≠ [])
    (hd : depth (xs.map hash256) ≤ depth (ys.map hash256)) (hx64 : ∀ s ∈ xs.head?, s.length ≠ 64)
    (mx : (Tree.ofLeaves (xs.map hash256)).mutated = false) (my : (Tree.ofLeaves (ys.map hash256)).mutated = false)
    (hroot : (Tree.ofLeaves (xs.map hash256)).root = (Tree.ofLeaves (ys.map hash256)).root) : xs = ys := by
  obtain ⟨m, hm⟩ := Nat.exists_eq_add_of_le' hd
  have hlevel := leaves_eq_level hn hx hy hx0 hy0 hm mx my hroot
  have hxall : xs ⊆ all := fun s hs => hx (contents_subset_hashed xs hs)
  have hyall : ys ⊆ all := fun s hs => hy (contents_subset_hashed ys hs)
  cases m with
  | zero => exact eq_of_map_hash256_eq hn hxall hyall hlevel
  | succ m =>
    -- The first leaf is an inner node of the higher tree.
    obtain ⟨x, rest, rfl⟩ := List.exists_cons_of_ne_nil hx0
    have hmem : hash256 x ∈ parents^[m + 1] (ys.map hash256) := by
      rw [← hlevel]
      exact List.mem_cons_self
    obtain ⟨s, hs, h64, he⟩ := exists_pair_of_mem (by omega) hmem
    have hxs : x = s := eq_of_hash256_eq hn (hxall List.mem_cons_self) (hy hs) he.symm
    exact absurd (hxs ▸ h64) (hx64 x rfl)

/-! ## Main theorem -/

/-- The contents under a root are determined by it. -/
theorem contents_eq_of_root_eq (hn : ¬ Collision all) (hz : ∀ s ∈ all, hash256 s ≠ 0) {xs ys : List Bytes}
    (hx : hashed xs ⊆ all) (hy : hashed ys ⊆ all) (hx64 : ∀ s ∈ xs.head?, s.length ≠ 64)
    (hy64 : ∀ s ∈ ys.head?, s.length ≠ 64) (mx : (Tree.ofLeaves (xs.map hash256)).mutated = false)
    (my : (Tree.ofLeaves (ys.map hash256)).mutated = false)
    (hroot : (Tree.ofLeaves (xs.map hash256)).root = (Tree.ofLeaves (ys.map hash256)).root) : xs = ys := by
  -- The root without contents is zero, and no root of contents is.
  have hne : ∀ {zs : List Bytes}, hashed zs ⊆ all → zs ≠ [] → (Tree.ofLeaves (zs.map hash256)).root ≠ 0 := by
    intro zs hsub h0 hroot0
    obtain ⟨s, hs, he⟩ := exists_hash_eq_root h0
    exact hz s (hsub hs) (he.trans hroot0)
  by_cases hx0 : xs = []
  · by_cases hy0 : ys = []
    · rw [hx0, hy0]
    · exact absurd (hroot.symm.trans (hx0 ▸ Tree.root_nil)) (hne hy hy0)
  · by_cases hy0 : ys = []
    · exact absurd (hroot.trans (hy0 ▸ Tree.root_nil)) (hne hx hx0)
    · rcases Nat.le_total (depth (xs.map hash256)) (depth (ys.map hash256)) with hd | hd
      · exact contents_eq_of_depth_le hn hx hy hx0 hy0 hd hx64 mx my hroot
      · exact (contents_eq_of_depth_le hn hy hx hy0 hx0 hd hy64 my mx hroot.symm).symm

end AuditChain.Merkle
