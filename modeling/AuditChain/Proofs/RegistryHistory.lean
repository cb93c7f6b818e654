import AuditChain.Proofs.PingAtomicity
import AuditChain.Proofs.RegistryKeys
/-!
# A registry after any changes

The keys of a registry are computed from what it keeps, and what it keeps is changed in place. Nothing that changes is
part of a key: a ping leaves a masternode its collateral, and an announcement its hash. So what was seen stays found, and
a masternode leads to its announcement whatever was written to either of them since.
-/

namespace AuditChain.Masternode.Registry

variable {r : Registry} {hash : Hash256}

/-! ## Announcements stay -/

/-- The hash of an announcement says no more of a masternode than its collateral and its key. -/
theorem broadcastHash_eq {m m' : Identity} (hcollateral : m.collateral = m'.collateral) (hkey : m.key = m'.key) :
    m.broadcastHash = m'.broadcastHash := by
  unfold Identity.broadcastHash
  rw [hcollateral, hkey]

theorem hasBroadcast_addBroadcast (r : Registry) (b : Broadcast) : (r.addBroadcast b).2.hasBroadcast b.hash = true := by
  rw [hasBroadcast, Table.contains_eq, addBroadcast, Table.get?_insert, if_pos rfl]
  rfl

/-- No change removes an announcement. -/
theorem hasBroadcast_apply (h : r.hasBroadcast hash = true) (change : Change) :
    (r.apply change).hasBroadcast hash = true := by
  cases change with
  | insert | remove => exact h
  | ping p =>
    rw [apply, hasBroadcast, broadcasts_updateLastPing]
    exact h
  | announce b =>
    rw [hasBroadcast, Table.contains_eq] at h ⊢
    rw [apply, addBroadcast, Table.get?_insert]
    -- the new one may have the hash of the old one, and then stands in its place
    split
    · rfl
    · exact h
  | refresh k p =>
    rw [hasBroadcast, Table.contains_eq] at h ⊢
    rw [apply, refreshBroadcast, Table.get?_modify]
    split
    · rw [Option.isSome_map, h]
    · exact h

theorem hasBroadcast_foldl_apply (h : r.hasBroadcast hash = true) (changes : List Change) :
    (changes.foldl apply r).hasBroadcast hash = true := by
  induction changes generalizing r with
  | nil => exact h
  | cons change changes ih => exact ih (hasBroadcast_apply h change)

/-! ## A new last ping -/

/-- `r'` is `r` after a ping for a masternode that it has: the masternode has a new last ping, that ping was seen,
and nothing else is different. -/
structure Pinged (r : Registry) (p : Ping) (r' : Registry) : Prop where
  masternodes : ∀ c, r'.findByCollateral c =
    if c = p.collateral then (r.findByCollateral c).map fun m => { m with lastPing := some p } else r.findByCollateral c
  /-- No masternode comes or goes, and none changes its place. -/
  collaterals : r'.masternodes.entries.map Prod.fst = r.masternodes.entries.map Prod.fst
  pings : ∀ hash, r'.seenPing hash = if hash = p.signingHash then some p else r.seenPing hash
  broadcasts : r'.broadcasts = r.broadcasts

theorem updateLastPing_eq_true_iff {p : Ping} :
    (r.updateLastPing p).1 = true ↔ ∃ m, r.findByCollateral p.collateral = some m := by
  rw [← Option.isSome_iff_exists, findByCollateral, ← Table.contains_eq]
  unfold updateLastPing
  split <;> simp_all

theorem pinged_updateLastPing {p : Ping} (h : (r.updateLastPing p).1 = true) : r.Pinged p (r.updateLastPing p).2 := by
  obtain ⟨m, hm⟩ := updateLastPing_eq_true_iff.1 h
  refine ⟨findByCollateral_updateLastPing r p, ?_, ?_, broadcasts_updateLastPing r p⟩
  · rw [updateLastPing_of_found hm]
    exact Table.keys_modify ..
  · rw [updateLastPing_of_found hm]
    exact fun hash => Table.get?_insert ..

/-- A ping for an unknown masternode is not even remembered as seen. -/
theorem updateLastPing_of_false {p : Ping} (h : (r.updateLastPing p).1 = false) : (r.updateLastPing p).2 = r := by
  unfold updateLastPing at h ⊢
  split at h
  · cases h
  · rename_i hunknown
    rw [if_neg hunknown]

/-! ## Main theorem -/

/-- Whatever the rest of the network did to a registry that was empty: it keeps every masternode under its own
collateral, and announcements and pings under their own hashes. Once a masternode was announced, anyone with its
collateral and its key finds an announcement, whatever else was changed before or since. A ping is taken just if its
collateral is known, and then it is the last ping there and a seen one, and nothing else changes; otherwise nothing
changes at all. -/
theorem found_under_own_key (changes : List Change) :
    let r := ofChanges changes
    ((∀ e ∈ r.masternodes.entries, e.2.collateral = e.1) ∧ (∀ e ∈ r.broadcasts.entries, e.2.hash = e.1) ∧
      ∀ e ∈ r.pings.entries, e.2.signingHash = e.1) ∧
    (∀ c m, r.findByCollateral c = some m → m.collateral = c) ∧
    (∀ (b : Broadcast) (later : List Change) (m : Identity),
      m.collateral = b.identity.collateral → m.key = b.identity.key →
      (ofChanges (changes ++ .announce b :: later)).hasBroadcast m.broadcastHash = true) ∧
    ∀ p : Ping, ((r.updateLastPing p).1 = true ↔ ∃ m, r.findByCollateral p.collateral = some m) ∧
      ((r.updateLastPing p).1 = true → r.Pinged p (r.updateLastPing p).2) ∧
      ((r.updateLastPing p).1 = false → (r.updateLastPing p).2 = r) := by
  intro r
  have hkeyed : r.Keyed := keyed_ofChanges changes
  refine ⟨⟨fun e he => ?_, fun e he => ?_, fun e he => ?_⟩, hkeyed.masternodes, fun b later m hcollateral hkey => ?_,
    fun p => ⟨updateLastPing_eq_true_iff, pinged_updateLastPing, updateLastPing_of_false⟩⟩
  · exact hkeyed.masternodes e.1 e.2 (Table.get?_eq_some_iff.2 he)
  · exact hkeyed.broadcasts e.1 e.2 (Table.get?_eq_some_iff.2 he)
  · exact hkeyed.pings e.1 e.2 (Table.get?_eq_some_iff.2 he)
  · rw [ofChanges, List.foldl_append, List.foldl_cons, broadcastHash_eq hcollateral hkey]
    exact hasBroadcast_foldl_apply (hasBroadcast_addBroadcast r b) later

/-- A masternode is announced, moves to another address, pings, and is removed. Its announcement is still found, and
its next ping is not taken. -/
theorem found_under_own_key_moved :
    let c : OutPoint := ⟨0, 1⟩
    let m (octet : UInt8) : Identity := ⟨c, .v4 ⟨10, 0, 0, octet⟩ 53572, ⟨[1]⟩, 70920, true, none⟩
    let p (time : Int64) : Ping := ⟨c, time, []⟩
    let moved : List Change := [.announce ⟨m 1, 600, []⟩, .insert (m 2), .ping (p 1000)]
    let r := ofChanges moved
    let gone := ofChanges (moved ++ [.remove c])
    r.findByCollateral c = some { m 2 with lastPing := some (p 1000) } ∧ (m 2).collateral = c ∧ (m 2).key = (m 1).key ∧
    r.hasBroadcast (m 2).broadcastHash = true ∧ (r.updateLastPing (p 2000)).1 = true ∧
    r.Pinged (p 2000) (r.updateLastPing (p 2000)).2 ∧ (gone.updateLastPing (p 2000)).1 = false ∧
    (gone.updateLastPing (p 2000)).2 = gone := by
  intro c m p moved r gone
  have hm : r.findByCollateral c = some { m 2 with lastPing := some (p 1000) } := by decide +kernel
  have hgone : (gone.updateLastPing (p 2000)).1 = false := by decide +kernel
  obtain ⟨-, -, hannounced, -⟩ := found_under_own_key []
  obtain ⟨-, -, -, hping⟩ := found_under_own_key moved
  obtain ⟨-, -, -, hlost⟩ := found_under_own_key (moved ++ [.remove c])
  have htaken : (r.updateLastPing (p 2000)).1 = true := (hping (p 2000)).1.2 ⟨_, hm⟩
  exact ⟨hm, rfl, rfl, hannounced ⟨m 1, 600, []⟩ [.insert (m 2), .ping (p 1000)] (m 2) rfl rfl, htaken,
    (hping (p 2000)).2.1 htaken, hgone, (hlost (p 2000)).2.2 hgone⟩

end AuditChain.Masternode.Registry
