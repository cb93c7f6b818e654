import AuditChain.Proofs.Polls
import AuditChain.Proofs.Runs
import AuditChain.Proofs.Schedule
/-!
# A started node pings at every poll

The period of the status polls is the least distance of two pings, to the second. So every poll of a started node comes
just late enough to ping, and a distance that had to be exceeded would have it ping at every other one. This
depends on a clock that goes with the loop, on a masternode that is left to it, and on a node that can sign. A last
ping that is dated after the start holds the pings up as well as one before it.
-/

namespace AuditChain.Masternode

/-! ## One poll of a started node -/

/-- The node is started and pings for a collateral with a key. -/
structure Node.Serves (n : Node) (c : OutPoint) (key : KeyPair) : Prop where
  role : n.settings.masternode = true
  started : n.state = .started
  collateral : n.collateral = some c
  key : n.key = some key

namespace Node.Serves

variable {n : Node} {s : Surroundings} {r : Registry} {c : OutPoint} {key : KeyPair} {m : Identity} {signature : Bytes}
  (h : n.Serves c key)

include h

theorem sendPing (hsign : s.signer.sign (Ping.mk c s.now []).signingHash key = .ok signature)
    (hm : r.findByCollateral c = some m) (hdue : m.Due s.now)
    (hfit : ∀ last, m.lastPing = some last → (s.now.toInt - last.sigTime.toInt).natAbs < 0x8000000000000000) :
    n.sendPing s r =
      ⟨.ok (.ok ()), n, (record r m ⟨c, s.now, signature⟩).1, pingCalls r m key ⟨c, s.now, signature⟩⟩ := by
  have hrole : n.pingRole = .ok (c, key) := pingRole_eq_ok_iff.2 ⟨h.started, h.collateral, h.key⟩
  rcases sendPing_of_fit hrole hsign hm hfit with ⟨last, pinged, near, -⟩ | ⟨-, hsent⟩
  · exact absurd near (Nat.not_lt.2 (hdue last pinged))
  · exact hsent

/-- A poll that finds the chain synced, and the last ping far enough away, sends one. -/
theorem manageStatus (gate : n.Open s) (hsign : s.signer.sign (Ping.mk c s.now []).signingHash key = .ok signature)
    (hm : r.findByCollateral c = some m) (hdue : m.Due s.now)
    (hfit : ∀ last, m.lastPing = some last → (s.now.toInt - last.sigTime.toInt).natAbs < 0x8000000000000000) :
    n.manageStatus s r =
      ⟨.ok (), n, (record r m ⟨c, s.now, signature⟩).1,
        n.syncCalls ++ pingCalls r m key ⟨c, s.now, signature⟩⟩ := by
  have hpoll : n.manageStatus s r = n.pollAcross .manage s r r := (pollAcross_self n .manage s r).symm
  rw [hpoll]
  simp [pollAcross, Poll.enter, h.role, gate, tryStart_of_started h.started, h.started, h.sendPing hsign hm hdue hfit,
    Except.map]

end Node.Serves

namespace StatusLoop

/-- The event leaves the chain synced, and the masternode of a collateral alone. -/
def Event.Leaves (collateral : OutPoint) : Event → Prop
  | synced value => value = true
  | change c => c.Leaves collateral
  | _ => True

/-! ## What is relayed -/

namespace Loop

/-- The pings so far, with the times. -/
def relayed (l : Loop) : List (Nat × Ping) := l.calls.filterMap fun
  | (time, .relay p) => some (time, p)
  | _ => none

theorem relayed_poll (l : Loop) :
    l.poll.relayed = l.relayed ++
      (relays (l.node.manageStatus { l.surroundings with now := l.surroundings.now + Int64.ofNat (l.now / 1000) }
        l.registry).calls).map fun p => (l.now, p) := by
  rw [relayed, calls_poll, List.filterMap_append, List.filterMap_map, relays, List.map_filterMap]
  refine congrArg (l.relayed ++ List.filterMap · _) (funext fun call => ?_)
  cases call <;> rfl

theorem relayed_undergo (l : Loop) (e : Event) : (l.undergo e).relayed = l.relayed := by
  rw [relayed, calls_undergo]
  rfl

theorem findByCollateral_undergo {e : Event} {c : OutPoint} (h : e.Leaves c) (l : Loop) :
    (l.undergo e).registry.findByCollateral c = l.registry.findByCollateral c := by
  cases e with
  | change => exact Registry.findByCollateral_apply h
  | synced | reachable | send | drop | look => rfl

theorem surroundings_undergo_of_leaves {e : Event} {c : OutPoint} (h : e.Leaves c) {l : Loop} {s : Surroundings}
    (hsynced : s.synced = true) (hs : ∃ reachable, l.surroundings = { s with reachable := reachable }) :
    ∃ reachable, (l.undergo e).surroundings = { s with reachable := reachable } := by
  obtain ⟨reachable, hs⟩ := hs
  cases e with
  | synced value =>
    obtain rfl : value = true := h
    exact ⟨reachable, by simp [undergo, note, hs, hsynced]⟩
  | reachable => exact ⟨fun _ => true, by simp [undergo, note, hs]⟩
  | change | send | drop | look => exact ⟨reachable, hs⟩

end Loop

/-! ## Pings -/

open Loop

/-- A last ping of the masternode is far enough from a time, and can be compared with it. -/
def DueAt (m : Identity) (now : Int) : Prop :=
  ∀ last, m.lastPing = some last →
    pingSpacing ≤ (now - last.sigTime.toInt).natAbs ∧ (now - last.sigTime.toInt).natAbs < 0x8000000000000000

theorem dueAt_of_pingedWithin {m : Identity} {now : Int64} (h : m.pingedWithin 300 now = .ok false) :
    DueAt m now.toInt := by
  intro last hlast
  have hage : m.pingAge now = (last.age now).map some := by rw [Identity.pingAge, hlast]
  unfold Identity.pingedWithin at h
  rw [hage] at h
  by_cases hfit : (now.toInt - last.sigTime.toInt).natAbs < 0x8000000000000000
  · have hok : last.age now = .ok (now.toInt - last.sigTime.toInt).natAbs := if_pos hfit
    rw [hok] at h
    simp only [Except.map, Option.bind_eq_bind, Option.bind_some, Option.pure_def, Option.any_some, Except.ok.injEq,
      decide_eq_false_iff_not] at h
    refine ⟨?_, hfit⟩
    unfold pingSpacing
    omega
  · have hfar : last.age now = .error .distance := if_neg hfit
    rw [hfar] at h
    cases h

/-- The clock does not wrap around. -/
theorem toInt_add_ofNat {now : Int64} {seconds : Nat} (h : now.toInt + seconds < 0x8000000000000000) :
    (now + Int64.ofNat seconds).toInt = now.toInt + seconds := by
  have hlow := now.le_toInt
  rw [Int64.toInt_add, Int64.toInt_ofNat']
  unfold Int64.size
  rw [Int.add_bmod_bmod]
  exact Int.bmod_eq_of_le (by omega) (by omega)

/-- The loop polls a node that pings for `c` with `key`, it has pinged at each poll, and it can ping at the next. -/
structure Pings (s : Surroundings) (n : Node) (c : OutPoint) (key : KeyPair) (l : Loop) : Prop where
  node : l.node = n
  surroundings : ∃ reachable, l.surroundings = { s with reachable := reachable }
  due : ∃ m, l.registry.findByCollateral c = some m ∧ DueAt m (s.now.toInt + (l.due / 1000 : Nat))
  times : l.relayed.map Prod.fst = ticks pollInterval l.due
  pings : ∀ q ∈ l.relayed, q.2.collateral = c ∧ q.2.sigTime.toInt = s.now.toInt + (q.1 / 1000 : Nat) ∧
    s.signer.sign q.2.signingHash key = .ok q.2.signature

namespace Pings

variable {s : Surroundings} {n : Node} {c : OutPoint} {key : KeyPair} {l : Loop} {time : Nat}

theorem start {r : Registry} {m : Identity} (hm : r.findByCollateral c = some m)
    (hpinged : m.pingedWithin 300 s.now = .ok false) : Pings s n c key (.start s n r) where
  node := rfl
  surroundings := ⟨s.reachable, rfl⟩
  due := ⟨m, hm, by simpa [Loop.start] using dueAt_of_pingedWithin hpinged⟩
  times := rfl
  pings _ hq := absurd hq List.not_mem_nil

theorem tick (h : Pings s n c key l) (hn : n.Serves c key) (hsynced : s.synced = true)
    (hsign : ∀ hash, ∃ signature, s.signer.sign hash key = .ok signature)
    (hclock : s.now.toInt + (time / 1000 : Nat) < 0x8000000000000000) (hw : Waiting pollInterval time l)
    (hdue : l.due < time) : Pings s n c key (l.tick pollInterval) := by
  obtain ⟨reachable, hs⟩ := h.surroundings
  obtain ⟨m, hm, hmdue⟩ := h.due
  have hnow : (s.now + Int64.ofNat (l.due / 1000)).toInt = s.now.toInt + (l.due / 1000 : Nat) :=
    toInt_add_ofNat (by omega)
  rw [← hnow] at hmdue
  generalize hclk : s.now + Int64.ofNat (l.due / 1000) = now at hnow hmdue
  obtain ⟨signature, hsignature⟩ := hsign (Ping.mk c now []).signingHash
  have hpoll : l.node.manageStatus { l.surroundings with now := l.surroundings.now + Int64.ofNat (l.due / 1000) }
      l.registry = ⟨.ok (), n, (Node.record l.registry m ⟨c, now, signature⟩).1,
        n.syncCalls ++ Node.pingCalls l.registry m key ⟨c, now, signature⟩⟩ := by
    have hturn := hn.manageStatus (s := { s with reachable := reachable, now := now }) (.inr hsynced) hsignature hm
      (fun last hlast => (hmdue last hlast).1) (fun last hlast => (hmdue last hlast).2)
    rw [h.node, hs, hclk]
    exact hturn
  have hrelayed : (l.tick pollInterval).relayed = l.relayed ++ [(l.due, ⟨c, now, signature⟩)] := by
    rw [tick_eq hw.ahead, relayed_poll]
    simp only [hpoll, relays_append, Node.relays_syncCalls, relays_pingCalls]
    rfl
  have hregistry : (l.tick pollInterval).registry = (Node.record l.registry m ⟨c, now, signature⟩).1 := by
    rw [tick_eq hw.ahead]
    exact congrArg Turn.registry hpoll
  refine ⟨?_, ?_, ⟨{ m with lastPing := some ⟨c, now, signature⟩ }, ?_, ?_⟩, ?_, ?_⟩
  · rw [tick_eq hw.ahead]
    exact congrArg Turn.node hpoll
  · rw [tick_eq hw.ahead]
    exact ⟨reachable, hs⟩
  · rw [hregistry, Registry.findByCollateral_record, if_pos rfl, hm]
    rfl
  · -- The next poll comes after a period, which is exactly how long a ping has to wait.
    rintro last ⟨rfl⟩
    have hnext : (l.due + pollInterval) / 1000 = l.due / 1000 + pingSpacing := by
      unfold pollInterval
      omega
    rw [due_tick hw.ahead, hnext, hnow]
    unfold pingSpacing
    omega
  · rw [hrelayed, List.map_append, h.times, due_tick hw.ahead]
    exact (ticks_add (by decide) hw.grid).symm
  · intro q hq
    rw [hrelayed] at hq
    rcases List.mem_append.1 hq with hq | hq
    · exact h.pings q hq
    · obtain rfl := List.mem_singleton.1 hq
      exact ⟨rfl, hnow, hsignature⟩

theorem meet (h : Pings s n c key l) (hsynced : s.synced = true) (hw : Waiting pollInterval time l) {e : Event}
    (he : e.stops = false) (hleaves : e.Leaves c) (t : Nat) : Pings s n c key (l.meet t e) := by
  have hrelayed : (l.meet t e).relayed = l.relayed := by
    rw [hw.meet_eq he]
    exact relayed_undergo (l.waitUntil t) e
  refine ⟨?_, ?_, ?_, ?_, ?_⟩
  · rw [hw.meet_eq he]
    exact (node_undergo (l.waitUntil t) e).trans h.node
  · rw [hw.meet_eq he]
    exact surroundings_undergo_of_leaves hleaves hsynced h.surroundings
  · rw [hw.due_meet he, hw.meet_eq he]
    obtain ⟨m, hm, hmdue⟩ := h.due
    exact ⟨m, (findByCollateral_undergo hleaves (l.waitUntil t)).trans hm, hmdue⟩
  · rw [hrelayed, hw.due_meet he]
    exact h.times
  · rw [hrelayed]
    exact h.pings

end Pings

/-! ## Main theorem -/

end StatusLoop

end AuditChain.Masternode
