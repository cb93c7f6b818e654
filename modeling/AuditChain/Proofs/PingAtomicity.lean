import AuditChain.Proofs.Runs
/-!
# A ping is sent whole or not at all

An attempt to ping that fails has asked questions only, and only a masternode that is not registered stops its
node. One that succeeds relays its ping, after it recorded it in three places: with the masternode, among the
pings that were seen, and in the masternode's announcement if that was seen.
-/

namespace AuditChain.Masternode

/-! ## What is recorded -/

namespace Registry

/-- The registry `r'` is `r` with a ping of masternode `m`, under its collateral, in every place where pings are kept. -/
structure Recorded (r : Registry) (m : Identity) (p : Ping) (r' : Registry) : Prop where
  masternodes : ∀ c, r'.findByCollateral c =
    if c = p.collateral then some { m with lastPing := some p } else r.findByCollateral c
  /-- No masternode comes or goes, and none changes its place. -/
  collaterals : r'.masternodes.entries.map Prod.fst = r.masternodes.entries.map Prod.fst
  pings : ∀ hash, r'.seenPing hash = if hash = p.signingHash then some p else r.seenPing hash
  broadcasts : ∀ hash, r'.seenBroadcast hash =
    if hash = m.broadcastHash then
      (r.seenBroadcast hash).map fun b => { b with identity := { b.identity with lastPing := some p } }
    else r.seenBroadcast hash

theorem updateLastPing_of_found {r : Registry} {m : Identity} {p : Ping} (h : r.findByCollateral p.collateral = some m) :
    (r.updateLastPing p).2 =
      { r with
        masternodes := r.masternodes.modify p.collateral fun m => { m with lastPing := some p }
        pings := r.pings.insert p.signingHash p } := by
  have hcontains : r.masternodes.contains p.collateral = true := by
    rw [Table.contains_eq]
    exact Option.isSome_iff_exists.2 ⟨m, h⟩
  unfold updateLastPing
  rw [if_pos hcontains]

/-- A ping leaves the announcements alone; they are refreshed apart. -/
theorem broadcasts_updateLastPing (r : Registry) (p : Ping) : (r.updateLastPing p).2.broadcasts = r.broadcasts := by
  unfold updateLastPing
  split <;> rfl

/-- An announcement that was not seen is not made up. -/
theorem seenBroadcast_record (r : Registry) (m : Identity) (p : Ping) (hash : Hash256) :
    (Node.record r m p).1.seenBroadcast hash =
      if hash = m.broadcastHash then
        (r.seenBroadcast hash).map fun b => { b with identity := { b.identity with lastPing := some p } }
      else r.seenBroadcast hash := by
  unfold Node.record
  dsimp only
  split
  · exact (Table.get?_modify ..).trans (by rw [broadcasts_updateLastPing]; rfl)
  · rename_i hseen
    unfold seenBroadcast
    rw [broadcasts_updateLastPing]
    split
    · rename_i hhash
      have hnone : r.broadcasts.get? hash = none := by
        rw [hasBroadcast, Table.contains_eq, broadcasts_updateLastPing, ← hhash] at hseen
        simpa using hseen
      rw [hnone]
      rfl
    · rfl

theorem recorded_record {r : Registry} {m : Identity} {p : Ping} (h : r.findByCollateral p.collateral = some m) :
    r.Recorded m p (Node.record r m p).1 where
  masternodes c := by
    rw [findByCollateral_record]
    split
    · rename_i hc
      rw [hc, h]
      rfl
    · rfl
  collaterals := by
    have hmodify := Table.keys_modify r.masternodes p.collateral fun m => { m with lastPing := some p }
    unfold Node.record
    rw [updateLastPing_of_found h]
    dsimp only
    split <;> exact hmodify
  pings hash := by
    have hinsert := Table.get?_insert r.pings p.signingHash hash p
    unfold Node.record
    rw [updateLastPing_of_found h]
    dsimp only
    split <;> exact hinsert
  broadcasts := seenBroadcast_record r m p

/-- An announcement is refreshed just if it was seen. -/
theorem calls_record (r : Registry) (m : Identity) (p : Ping) :
    (Node.record r m p).2 = [.updateLastPing p, .hasBroadcast m.broadcastHash] ++
      if r.hasBroadcast m.broadcastHash then [.refreshBroadcast m.broadcastHash p] else [] := by
  have hseen : (r.updateLastPing p).2.hasBroadcast m.broadcastHash = r.hasBroadcast m.broadcastHash := by
    rw [hasBroadcast, broadcasts_updateLastPing]
    rfl
  unfold Node.record
  dsimp only
  rw [hseen]
  split <;> rfl

end Registry

/-! ## Main theorem -/

/-- With a clock that the last ping of its masternode can be compared with, whatever a node does to ping comes to
one of three. It is refused: it has asked questions only, and nothing changes. Or, after no more than questions, its
masternode is not registered, and the node stops: nothing else changes, and further pings are refused. Or one ping is
relayed, for the collateral of the node, with the time of the clock and the signature of the node's key, and the registry
was told to keep it in the places for it, and is otherwise the same. -/
theorem sendPing_atomic {n : Node} {s : Surroundings} {r : Registry}
    (hfit : ∀ c m last, n.collateral = some c → r.findByCollateral c = some m → m.lastPing = some last →
      (s.now.toInt - last.sigTime.toInt).natAbs < 0x8000000000000000) :
    let t := n.sendPing s r
    (∃ e asked, e ≠ .notRegistered ∧ e ≠ .invalidPingSignature ∧ asked.all Call.isQuestion = true ∧
      t = ⟨.ok (.error e), n, r, asked⟩) ∨
    (∃ asked, asked.all Call.isQuestion = true ∧
      t = ⟨.ok (.error .notRegistered), { n with state := .notCapable .notRegistered }, r, asked⟩ ∧
      ∀ s' r', t.node.sendPing s' r' = ⟨.ok (.error .notRunning), t.node, r', []⟩) ∨
    (∃ c key m p, n.state = .started ∧ n.collateral = some c ∧ n.key = some key ∧ r.findByCollateral c = some m ∧
      p.collateral = c ∧ p.sigTime = s.now ∧ s.signer.sign p.signingHash key = .ok p.signature ∧
      t.result = .ok (.ok ()) ∧ t.node = n ∧ r.Recorded m p t.registry ∧
      t.calls = [.readClock, .sign p.signingHash key, .findByCollateral c, .updateLastPing p,
        .hasBroadcast m.broadcastHash] ++
        (if r.hasBroadcast m.broadcastHash then [.refreshBroadcast m.broadcastHash p] else []) ++ [.relay p]) := by
  intro t
  have hcases : n.Pinging s r t := n.sendPing_cases s r
  generalize t = t at hcases
  cases hcases with
  | idle role =>
    rcases Node.error_of_pingRole role with rfl | rfl
    · exact .inl ⟨_, [], by simp, by simp, rfl, rfl⟩
    · exact .inl ⟨_, [], by simp, by simp, rfl, rfl⟩
  | unsigned => exact .inl ⟨_, _, by simp, by simp, rfl, rfl⟩
  | unregistered =>
    exact .inr (.inl ⟨_, rfl, rfl, fun s' r' => Node.sendPing_of_not_started (by simp) s' r'⟩)
  | overflow role _ found pinged far =>
    obtain ⟨-, hcollateral, -⟩ := Node.pingRole_eq_ok_iff.1 role
    exact absurd (hfit _ _ _ hcollateral found pinged) (Nat.not_lt.2 far)
  | early => exact .inl ⟨_, _, by simp, by simp, rfl, rfl⟩
  | relayed role sign found =>
    obtain ⟨hstate, hcollateral, hkey⟩ := Node.pingRole_eq_ok_iff.1 role
    refine .inr (.inr ⟨_, _, _, _, hstate, hcollateral, hkey, found, rfl, rfl, sign, rfl, rfl,
      Registry.recorded_record found, ?_⟩)
    rw [Node.pingCalls, Registry.calls_record]
    rfl

/-- A masternode whose announcement was seen pings 300 seconds after its last ping. -/
theorem sendPing_atomic_announced :
    let c : OutPoint := ⟨0, 1⟩
    let key : KeyPair := ⟨0⟩
    let m : Identity := ⟨c, .v4 ⟨10, 0, 0, 1⟩ 53572, ⟨[1]⟩, 70920, true, some ⟨c, 700, []⟩⟩
    let r : Registry := ((Registry.empty.insert m).addBroadcast ⟨m, 600, []⟩).2
    let n : Node := ⟨⟨true, none, "", .mainnet, 70920⟩, some key, .started, some c, some m.endpoint⟩
    let s : Surroundings := ⟨true, none, fun _ => false, 1000, .ed25519⟩
    let t := n.sendPing s r
    (∀ c' m' last, n.collateral = some c' → r.findByCollateral c' = some m' → m'.lastPing = some last →
      (s.now.toInt - last.sigTime.toInt).natAbs < 0x8000000000000000) ∧
    t.result = .ok (.ok ()) ∧ r.hasBroadcast m.broadcastHash = true ∧
    ∃ p, p.collateral = c ∧ p.sigTime = 1000 ∧ p.signature = key.sign p.signingHash.toList ∧
      r.Recorded m p t.registry ∧
      t.calls = [.readClock, .sign p.signingHash key, .findByCollateral c, .updateLastPing p,
        .hasBroadcast m.broadcastHash, .refreshBroadcast m.broadcastHash p, .relay p] := by
  intro c key m r n s t
  have hm : r.findByCollateral c = some m := by decide +kernel
  have hfit : ∀ c' m' last, n.collateral = some c' → r.findByCollateral c' = some m' → m'.lastPing = some last →
      (s.now.toInt - last.sigTime.toInt).natAbs < 0x8000000000000000 := by
    rintro _ m' last ⟨rfl⟩ hm' hlast
    obtain rfl := Option.some.inj (hm.symm.trans hm')
    cases hlast
    decide
  have hseen : r.hasBroadcast m.broadcastHash = true := by decide +kernel
  have hquestion : t.calls.all Call.isQuestion = false := by decide +kernel
  rcases sendPing_atomic hfit with ⟨e, asked, -, -, hasked, h⟩ | ⟨asked, hasked, h, -⟩ | hsent
  · rw [show t = _ from h, hasked] at hquestion
    cases hquestion
  · rw [show t = _ from h, hasked] at hquestion
    cases hquestion
  · obtain ⟨c', key', m', p, -, hc, hkey, hm', hp, htime, hsign, hok, -, hrecorded, hcalls⟩ := hsent
    cases hc
    cases hkey
    obtain rfl := Option.some.inj (hm.symm.trans hm')
    rw [if_pos hseen] at hcalls
    exact ⟨hfit, hok, hseen, p, hp, htime, (Except.ok.inj hsign).symm, hrecorded, hcalls⟩

end AuditChain.Masternode
