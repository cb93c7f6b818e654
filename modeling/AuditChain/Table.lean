/-!
# Tables

A table holds values under keys, at most one value a key, in the order in which the keys came in.
-/

namespace AuditChain

structure Table (κ α : Type) where
  entries : List (κ × α)
  nodup_keys : (entries.map Prod.fst).Nodup

namespace Table

variable {κ α : Type}

def empty : Table κ α := ⟨[], List.nodup_nil⟩

instance : Inhabited (Table κ α) := ⟨empty⟩

def size (t : Table κ α) : Nat := t.entries.length

def values (t : Table κ α) : List α := t.entries.map Prod.snd

variable [DecidableEq κ]

def get? (t : Table κ α) (key : κ) : Option α := (t.entries.find? (·.1 = key)).map Prod.snd

def contains (t : Table κ α) (key : κ) : Bool := t.entries.any (·.1 = key)

theorem map_fst_change (entries : List (κ × α)) (key : κ) (f : α → α) :
    (entries.map fun e => if e.1 = key then (e.1, f e.2) else e).map Prod.fst = entries.map Prod.fst := by
  rw [List.map_map]
  refine List.map_congr_left fun e _ => ?_
  by_cases he : e.1 = key <;> simp [he]

/-- Changes the value under a key, if there is one. -/
def modify (t : Table κ α) (key : κ) (f : α → α) : Table κ α where
  entries := t.entries.map fun e => if e.1 = key then (e.1, f e.2) else e
  nodup_keys := by
    rw [map_fst_change]
    exact t.nodup_keys

/-- Puts a value under a key, in place of the one that was there. -/
def insert (t : Table κ α) (key : κ) (value : α) : Table κ α :=
  if h : t.contains key then t.modify key fun _ => value
  else
    { entries := t.entries ++ [(key, value)]
      nodup_keys := by
        have hk : ∀ e ∈ t.entries, e.1 ≠ key := by
          rintro e he rfl
          exact h (List.any_eq_true.2 ⟨e, he, by simp⟩)
        rw [List.map_append, List.nodup_append]
        refine ⟨t.nodup_keys, by simp, ?_⟩
        intro k hmem k' hk' heq
        obtain ⟨e, he, rfl⟩ := List.mem_map.1 hmem
        simp only [List.map_cons, List.map_nil, List.mem_singleton] at hk'
        exact hk e he (heq.trans hk') }

def erase (t : Table κ α) (key : κ) : Table κ α where
  entries := t.entries.filter (·.1 ≠ key)
  nodup_keys := List.Sublist.nodup (List.filter_sublist.map _) t.nodup_keys

/-! ## What is found after a change -/

theorem contains_eq (t : Table κ α) (key : κ) : t.contains key = (t.get? key).isSome := by
  unfold contains get?
  rw [Option.isSome_map, List.isSome_find?]

/-- A change of a value leaves the keys in their order. -/
theorem keys_modify (t : Table κ α) (key : κ) (f : α → α) :
    (t.modify key f).entries.map Prod.fst = t.entries.map Prod.fst := map_fst_change t.entries key f

theorem get?_modify (t : Table κ α) (key k : κ) (f : α → α) :
    (t.modify key f).get? k = if k = key then (t.get? k).map f else t.get? k := by
  have hkey : ((fun e : κ × α => decide (e.1 = k)) ∘ fun e => if e.1 = key then (e.1, f e.2) else e) =
      fun e => decide (e.1 = k) := by
    funext e
    by_cases he : e.1 = key <;> simp [he]
  unfold modify get?
  rw [List.find?_map, hkey]
  cases hf : t.entries.find? (·.1 = k) with
  | none => simp
  | some e =>
    have he : e.1 = k := by simpa using List.find?_some hf
    by_cases hk : k = key <;> simp [he, hk]

theorem get?_insert (t : Table κ α) (key k : κ) (value : α) :
    (t.insert key value).get? k = if k = key then some value else t.get? k := by
  unfold insert
  split
  · rename_i h
    rw [get?_modify]
    split
    · rename_i hk
      obtain ⟨old, hold⟩ := Option.isSome_iff_exists.1 ((t.contains_eq key).symm.trans h)
      rw [hk, hold]
      rfl
    · rfl
  · rename_i h
    unfold get?
    rw [List.find?_append, Option.map_or]
    by_cases hk : k = key
    · subst hk
      have hnone : t.get? k = none := by simpa [contains_eq] using h
      unfold get? at hnone
      simp [hnone]
    · simp [hk, Ne.symm hk]

theorem get?_erase (t : Table κ α) (key k : κ) : (t.erase key).get? k = if k = key then none else t.get? k := by
  unfold erase get?
  rw [List.find?_filter]
  split
  · rename_i hk
    simp [hk]
  · rename_i hk
    congr 2
    funext e
    by_cases he : e.1 = k <;> simp [he, hk]

end Table

end AuditChain
