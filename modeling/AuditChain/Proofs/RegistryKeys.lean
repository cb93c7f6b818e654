import AuditChain.Proofs.Runs
/-!
# What a registry keeps is found under its own key

A table takes any value under any key. A registry derives the key from what it keeps, so that a masternode is
found by its collateral, and an announcement or a ping by its hash, however the registry came about.
-/

namespace AuditChain

namespace Masternode.Registry

/-! ## What the rest of the network makes of a registry -/

/-- An empty registry after some changes. -/
def ofChanges (changes : List Change) : Registry := changes.foldl apply empty

/-- Masternodes are under their collaterals, announcements and pings under their hashes. -/
structure Keyed (r : Registry) : Prop where
  masternodes : ∀ c m, r.findByCollateral c = some m → m.collateral = c
  broadcasts : ∀ hash b, r.seenBroadcast hash = some b → b.hash = hash
  pings : ∀ hash p, r.seenPing hash = some p → p.signingHash = hash

theorem keyed_empty : empty.Keyed := ⟨nofun, nofun, nofun⟩

variable {r : Registry}

namespace Keyed

variable (h : r.Keyed)

include h

theorem insert (m : Identity) : (r.insert m).Keyed where
  masternodes c m' hm' := by
    rw [findByCollateral, Registry.insert, Table.get?_insert] at hm'
    split at hm'
    · rename_i hc
      rw [← Option.some.inj hm', hc]
    · exact h.masternodes c m' hm'
  broadcasts := h.broadcasts
  pings := h.pings

theorem remove (collateral : OutPoint) : (r.remove collateral).2.Keyed where
  masternodes c m hm := by
    rw [findByCollateral, Registry.remove, Table.get?_erase] at hm
    split at hm
    · cases hm
    · exact h.masternodes c m hm
  broadcasts := h.broadcasts
  pings := h.pings

/-- A ping changes nothing of a masternode that its key comes from. -/
theorem updateLastPing (p : Ping) : (r.updateLastPing p).2.Keyed where
  masternodes c m hm := by
    rw [findByCollateral_updateLastPing] at hm
    split at hm
    · obtain ⟨old, hold, rfl⟩ := Option.map_eq_some_iff.1 hm
      exact h.masternodes c old hold
    · exact h.masternodes c m hm
  broadcasts hash b hb := by
    unfold Registry.updateLastPing at hb
    split at hb <;> exact h.broadcasts hash b hb
  pings hash q hq := by
    unfold Registry.updateLastPing at hq
    split at hq
    · rw [seenPing, Table.get?_insert] at hq
      split at hq
      · rename_i hhash
        rw [← Option.some.inj hq, hhash]
      · exact h.pings hash q hq
    · exact h.pings hash q hq

theorem addBroadcast (b : Broadcast) : (r.addBroadcast b).2.Keyed where
  masternodes := h.masternodes
  broadcasts hash b' hb' := by
    rw [seenBroadcast, Registry.addBroadcast, Table.get?_insert] at hb'
    split at hb'
    · rename_i hhash
      rw [← Option.some.inj hb', hhash]
    · exact h.broadcasts hash b' hb'
  pings := h.pings

/-- The hash of an announcement does not depend on the ping in it. -/
theorem refreshBroadcast (hash : Hash256) (p : Ping) : (r.refreshBroadcast hash p).Keyed where
  masternodes := h.masternodes
  broadcasts k b hb := by
    rw [seenBroadcast, Registry.refreshBroadcast, Table.get?_modify] at hb
    split at hb
    · obtain ⟨old, hold, rfl⟩ := Option.map_eq_some_iff.1 hb
      exact h.broadcasts k old hold
    · exact h.broadcasts k b hb
  pings := h.pings

theorem apply (change : Change) : (r.apply change).Keyed := by
  cases change with
  | insert m => exact h.insert m
  | remove collateral => exact h.remove collateral
  | ping p => exact h.updateLastPing p
  | announce b => exact h.addBroadcast b
  | refresh hash p => exact h.refreshBroadcast hash p

theorem foldl_apply (changes : List Change) : (changes.foldl Registry.apply r).Keyed := by
  induction changes generalizing r with
  | nil => exact h
  | cons change changes ih => exact ih (h.apply change)

/-- A masternode of the registry is found by its own collateral. -/
theorem findByCollateral_self {m : Identity} (hm : m ∈ r.masternodes.values) :
    r.findByCollateral m.collateral = some m := by
  obtain ⟨c, hc⟩ := Table.mem_values_iff.1 hm
  rw [h.masternodes c m hc]
  exact hc

end Keyed

theorem keyed_ofChanges (changes : List Change) : (ofChanges changes).Keyed := keyed_empty.foldl_apply changes

/-- In whatever order, the same is under the same keys. -/
theorem Keyed.reorders {r' : Registry} (h : r.Keyed) (hr' : r.Reorders r') : r'.Keyed where
  masternodes c m hm := h.masternodes c m ((Table.get?_perm hr'.masternodes c).symm.trans hm)
  broadcasts hash b hb := h.broadcasts hash b ((Table.get?_perm hr'.broadcasts hash).symm.trans hb)
  pings hash p hp := h.pings hash p ((Table.get?_perm hr'.pings hash).symm.trans hp)

end Masternode.Registry

end AuditChain
