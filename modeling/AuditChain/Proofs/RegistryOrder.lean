import Mathlib.Data.List.Nodup
import AuditChain.Masternode.Registry
/-!
# The order of a registry

A registry lists its masternodes in some order, which no operation promises to keep. What is found by a collateral or by
a hash is the same in every order. The masternode that is found by a key is not: where several have the key, each of
them comes first in some order.
-/

namespace AuditChain

/-! ## Tables -/

namespace Table

variable {κ α : Type} [DecidableEq κ] {t t' : Table κ α} {key : κ} {value : α}

theorem get?_eq_some_iff : t.get? key = some value ↔ (key, value) ∈ t.entries := by
  unfold get?
  constructor
  · intro h
    obtain ⟨⟨k, v⟩, hfind, rfl⟩ := Option.map_eq_some_iff.1 h
    obtain rfl : k = key := by simpa using List.find?_some hfind
    exact List.mem_of_find?_eq_some hfind
  · intro hmem
    have hfound : (t.entries.find? (·.1 = key)).isSome := List.find?_isSome.2 ⟨(key, value), hmem, decide_eq_true rfl⟩
    obtain ⟨e, he⟩ := Option.isSome_iff_exists.1 hfound
    have hkey : e.1 = key := by simpa using List.find?_some he
    have hsame := List.inj_on_of_nodup_map t.nodup_keys (List.mem_of_find?_eq_some he) hmem hkey
    rw [he, hsame]
    rfl

theorem mem_values_iff : value ∈ t.values ↔ ∃ key, t.get? key = some value := by
  simp [values, get?_eq_some_iff]

/-- The order of the entries does not matter to what is found by key. -/
theorem get?_perm (h : t'.entries.Perm t.entries) (key : κ) : t'.get? key = t.get? key := by
  ext value
  rw [get?_eq_some_iff, get?_eq_some_iff, h.mem_iff]

end Table

namespace Masternode.Registry

/-! ## The same registry in another order -/

/-- The same contents, in any order. -/
structure Reorders (r r' : Registry) : Prop where
  masternodes : r'.masternodes.entries.Perm r.masternodes.entries
  broadcasts : r'.broadcasts.entries.Perm r.broadcasts.entries
  pings : r'.pings.entries.Perm r.pings.entries

instance (r r' : Registry) : Decidable (r.Reorders r') :=
  decidable_of_iff
    (r'.masternodes.entries.Perm r.masternodes.entries ∧ r'.broadcasts.entries.Perm r.broadcasts.entries ∧
      r'.pings.entries.Perm r.pings.entries)
    ⟨fun h => ⟨h.1, h.2.1, h.2.2⟩, fun h => ⟨h.masternodes, h.broadcasts, h.pings⟩⟩

theorem Reorders.refl (r : Registry) : r.Reorders r := ⟨.refl _, .refl _, .refl _⟩

variable {r r' : Registry} {key : PublicKey} {m : Identity}

theorem Reorders.mem_iff (h : r.Reorders r') : m ∈ r'.masternodes.values ↔ m ∈ r.masternodes.values :=
  (h.masternodes.map Prod.snd).mem_iff

theorem Reorders.findByCollateral (h : r.Reorders r') (c : OutPoint) :
    r'.findByCollateral c = r.findByCollateral c :=
  Table.get?_perm h.masternodes c

/-! ## The first masternode with a key -/

/-- The first masternode with a key. -/
def IsFirst (r : Registry) (key : PublicKey) (m : Identity) : Prop :=
  ∃ before after, r.masternodes.values = before ++ m :: after ∧ m.key = key ∧ ∀ m' ∈ before, m'.key ≠ key

theorem findByKey_eq_some_iff : r.findByKey key = some m ↔ r.IsFirst key m := by
  simp only [findByKey, IsFirst, List.find?_eq_some_iff_append, decide_eq_true_eq, Bool.not_eq_true',
    decide_eq_false_iff_not]
  constructor
  · rintro ⟨hkey, before, after, hvalues, hbefore⟩
    exact ⟨before, after, hvalues, hkey, hbefore⟩
  · rintro ⟨before, after, hvalues, hkey, hbefore⟩
    exact ⟨hkey, before, after, hvalues, hbefore⟩

theorem IsFirst.mem (h : r.IsFirst key m) : m ∈ r.masternodes.values := by
  obtain ⟨before, after, hvalues, -, -⟩ := h
  rw [hvalues]
  exact List.mem_append_right _ List.mem_cons_self

theorem IsFirst.key_eq (h : r.IsFirst key m) : m.key = key := by
  obtain ⟨-, -, -, hkey, -⟩ := h
  exact hkey

theorem IsFirst.unique {m' : Identity} (h : r.IsFirst key m) (h' : r.IsFirst key m') : m = m' :=
  Option.some.inj ((findByKey_eq_some_iff.2 h).symm.trans (findByKey_eq_some_iff.2 h'))

/-- One of the masternodes with a key is the first of them. -/
theorem exists_isFirst (hm : m ∈ r.masternodes.values) : ∃ first, r.IsFirst m.key first := by
  have hfound : (r.findByKey m.key).isSome := List.find?_isSome.2 ⟨m, hm, decide_eq_true rfl⟩
  obtain ⟨first, hfirst⟩ := Option.isSome_iff_exists.1 hfound
  exact ⟨first, findByKey_eq_some_iff.1 hfirst⟩

/-- Any masternode comes first in some order. -/
theorem exists_reorders_isFirst (hm : m ∈ r.masternodes.values) : ∃ r', r.Reorders r' ∧ r'.IsFirst m.key m := by
  obtain ⟨e, he, rfl⟩ := List.mem_map.1 hm
  obtain ⟨before, after, hentries⟩ := List.append_of_mem he
  have hperm : (e :: (before ++ after)).Perm r.masternodes.entries := hentries ▸ List.perm_middle.symm
  have hnodup : ((e :: (before ++ after)).map Prod.fst).Nodup := (hperm.map Prod.fst).nodup_iff.2 r.masternodes.nodup_keys
  exact ⟨{ r with masternodes := ⟨e :: (before ++ after), hnodup⟩ }, ⟨hperm, .refl _, .refl _⟩,
    [], (before ++ after).map Prod.snd, rfl, rfl, fun _ h => absurd h List.not_mem_nil⟩

end Masternode.Registry

end AuditChain
