import Mathlib.Data.List.Chain
import Mathlib.Data.List.Induction
import AuditChain.Proofs.Runs
/-!
# The pings of a masternode keep their distance

The registry is all that remembers when a masternode was pinged last. As long as the nodes are the
only ones to write that, it is the last ping that any of them relayed, so two nodes with one
collateral keep the distance of one.
-/

namespace AuditChain.Masternode

/-! ## One ping -/

/-- What a node that can ping relays. -/
theorem Node.relays_sendPing {n : Node} {s : Surroundings} {r : Registry} {c : OutPoint} {key : KeyPair}
    {signature : Bytes} {m : Identity} (hstate : n.state = .started) (hcollateral : n.collateral = some c)
    (hkey : n.key = some key) (hsign : s.signer.sign (Ping.mk c s.now []).signingHash key = .ok signature)
    (hm : r.findByCollateral c = some m)
    (hfit : ∀ last, m.lastPing = some last → (s.now.toInt - last.sigTime.toInt).natAbs < 0x8000000000000000) :
    relays (n.sendPing s r).calls =
      if m.lastPing.all fun last => pingSpacing ≤ (s.now.toInt - last.sigTime.toInt).natAbs then [⟨c, s.now, signature⟩]
      else [] := by
  have hrole : n.pingRole = .ok (c, key) := pingRole_eq_ok_iff.2 ⟨hstate, hcollateral, hkey⟩
  rcases sendPing_of_fit hrole hsign hm hfit with ⟨last, pinged, near, h⟩ | ⟨due, h⟩
  · rw [h, pinged, Option.all_some, if_neg (by simpa using near)]
    rfl
  · rw [h, if_pos]
    · exact relays_pingCalls r m key _
    · rw [Option.all_eq_true]
      exact fun last hlast => decide_eq_true (due last hlast)

/-! ## The pings of a run -/

variable {ι : Type}

/-- The pings that were relayed so far for a collateral, in order. -/
def World.relayed (w : World ι) (c : OutPoint) : List Ping := (relays w.calls).filter (·.collateral = c)

variable {c : OutPoint} {m : Identity}

/-- What holds of a world after operations with the clock readings `seen`, if `m` was the masternode of
collateral `c` at first. -/
structure Spaced (c : OutPoint) (m : Identity) (seen : List Int64) (w : World ι) : Prop where
  last : w.registry.findByCollateral c = some { m with lastPing := (w.relayed c).getLast? }
  apart : (w.relayed c).IsChain fun p q => pingSpacing ≤ (q.sigTime.toInt - p.sigTime.toInt).natAbs
  times : ((w.relayed c).map Ping.sigTime).Sublist seen

theorem Spaced.of_effect {w : World ι} {seen : List Int64} (h : Spaced c m seen w) {now? : Option Int64}
    {r : Registry} {pings : List Ping} (he : Effect now? w.registry r pings) {nodes : ι → Node} {calls : List Call}
    (hcalls : relays calls = pings) : Spaced c m (seen ++ now?.toList) ⟨nodes, r, w.calls ++ calls⟩ := by
  have hrelayed : (World.mk nodes r (w.calls ++ calls)).relayed c = w.relayed c ++ pings.filter (·.collateral = c) := by
    unfold World.relayed
    rw [relays_append, hcalls, List.filter_append]
  cases he with
  | quiet =>
    rw [List.filter_nil, List.append_nil] at hrelayed
    exact ⟨hrelayed ▸ h.last, hrelayed ▸ h.apart, hrelayed ▸ h.times.trans (List.sublist_append_left _ _)⟩
  | relay m' p htime hfound hdue =>
    by_cases hc : p.collateral = c
    · have hone : [p].filter (·.collateral = c) = [p] := by simp [hc]
      rw [hone] at hrelayed
      have hm' : m' = { m with lastPing := (w.relayed c).getLast? } := by
        rw [hc, h.last] at hfound
        exact (Option.some.inj hfound).symm
      refine ⟨?_, ?_, ?_⟩
      · rw [hrelayed, List.getLast?_concat, Registry.findByCollateral_record, if_pos hc.symm, h.last]
        rfl
      · rw [hrelayed]
        refine h.apart.append (.singleton p) ?_
        rintro last hlast _ ⟨rfl⟩
        exact hdue last (by rw [hm']; exact hlast)
      · rw [hrelayed, List.map_append, htime]
        exact h.times.append (List.Sublist.refl _)
    · have hnone : [p].filter (·.collateral = c) = [] := by simp [hc]
      rw [hnone, List.append_nil] at hrelayed
      refine ⟨?_, hrelayed ▸ h.apart, hrelayed ▸ h.times.trans (List.sublist_append_left _ _)⟩
      rw [hrelayed, Registry.findByCollateral_record, if_neg (Ne.symm hc), h.last]

section Runs

variable [DecidableEq ι]

theorem Spaced.step {w : World ι} {seen : List Int64} (h : Spaced c m seen w) {e : Event ι} (hl : e.Leaves c) :
    Spaced c m (seen ++ e.now?.toList) (w.step e) := by
  cases e with
  | act i o => exact h.of_effect ((w.nodes i).perform_effect w.registry o) rfl
  | change change =>
    refine ⟨?_, h.apart, h.times.trans (List.sublist_append_left _ _)⟩
    exact (Registry.findByCollateral_apply hl).trans h.last
  | reorder r =>
    have hseen : seen ++ (Event.reorder (ι := ι) r).now?.toList = seen := List.append_nil seen
    rw [hseen, World.step]
    split
    · exact ⟨(Registry.Reorders.findByCollateral ‹_› c).trans h.last, h.apart, h.times⟩
    · exact h

theorem Spaced.run {w : World ι} (h : Spaced c m [] w) {es : List (Event ι)} (hl : ∀ e ∈ es, e.Leaves c) :
    Spaced c m (readings es) (w.run es) := by
  induction es using List.reverseRecOn with
  | nil => exact h
  | append_singleton es e ih =>
    have hreadings : readings (es ++ [e]) = readings es ++ e.now?.toList := by
      unfold readings
      rw [List.filterMap_append]
      cases hn : e.now? <;> simp [hn]
    rw [World.run_concat, hreadings]
    exact (ih fun e' he => hl e' (List.mem_append_left _ he)).step (hl e (by simp))

end Runs

/-- The second ping comes late enough after the first. -/
def Ping.Before (p q : Ping) : Prop := p.sigTime.toInt + (pingSpacing : Int) ≤ q.sigTime.toInt

instance : Trans Ping.Before Ping.Before Ping.Before where
  trans h h' := by
    unfold Ping.Before at *
    omega

/-- With a clock that does not go back, what keeps its distance from the last keeps it from all. -/
theorem Spaced.pairwise {w : World ι} {seen : List Int64} (h : Spaced c m seen w)
    (hseen : seen.Pairwise fun a b => a.toInt ≤ b.toInt) :
    (w.relayed c).Pairwise fun p q => pingSpacing ≤ (q.sigTime.toInt - p.sigTime.toInt).natAbs := by
  have horder := List.Pairwise.sublist h.times hseen
  rw [List.pairwise_map] at horder
  have hchain : (w.relayed c).IsChain Ping.Before := by
    rw [List.isChain_iff_getElem]
    intro i hi
    have hapart := List.isChain_iff_getElem.1 h.apart i hi
    have hle := List.pairwise_iff_getElem.1 horder i (i + 1) (by omega) hi (by omega)
    unfold Ping.Before
    omega
  refine (List.isChain_iff_pairwise.1 hchain).imp ?_
  intro p q hbefore
  unfold Ping.Before at hbefore
  omega

/-! ## Main theorem -/

/-- In a run that begins with masternode `m` at collateral `c`, not yet pinged and left to the nodes, its
last ping is always the last one relayed. So a node that can ping does so if there was none or the last
one is 300 seconds away, pings in a row are 300 seconds apart, and so are all if no clock goes back. -/
theorem ping_spacing [DecidableEq ι] {w : World ι} {es : List (Event ι)}
    (hm : w.registry.findByCollateral c = some m) (hnone : m.lastPing = none) (hcalls : w.calls = [])
    (hleaves : ∀ e ∈ es, e.Leaves c)
    (hfit : ∀ a ∈ readings es, ∀ b ∈ readings es, (a.toInt - b.toInt).natAbs < 0x8000000000000000) :
    (∀ before after, es = before ++ after →
      (w.run before).registry.findByCollateral c = some { m with lastPing := ((w.run before).relayed c).getLast? }) ∧
    (∀ before i s after key signature, es = before ++ .act i (.ping s) :: after →
      ((w.run before).nodes i).state = .started → ((w.run before).nodes i).collateral = some c →
      ((w.run before).nodes i).key = some key →
      s.signer.sign (Ping.mk c s.now []).signingHash key = .ok signature →
      relays (((w.run before).nodes i).sendPing s (w.run before).registry).calls =
        if ((w.run before).relayed c).getLast?.all fun last => 300 ≤ (s.now.toInt - last.sigTime.toInt).natAbs
        then [⟨c, s.now, signature⟩] else []) ∧
    ((w.run es).relayed c).IsChain (fun p q => 300 ≤ (q.sigTime.toInt - p.sigTime.toInt).natAbs) ∧
    ((readings es).Pairwise (fun a b => a.toInt ≤ b.toInt) →
      ((w.run es).relayed c).Pairwise fun p q => 300 ≤ (q.sigTime.toInt - p.sigTime.toInt).natAbs) := by
  have start : Spaced c m [] w := by
    have hrelayed : w.relayed c = [] := by
      unfold World.relayed
      rw [hcalls]
      rfl
    refine ⟨?_, hrelayed ▸ .nil, hrelayed ▸ .slnil⟩
    rw [hrelayed, hm, List.getLast?_nil, ← hnone]
  have spaced : ∀ before after, es = before ++ after → Spaced c m (readings before) (w.run before) := by
    rintro before after rfl
    exact start.run fun e he => hleaves e (List.mem_append_left _ he)
  refine ⟨fun before after h => (spaced before after h).last, ?_, ?_, ?_⟩
  · intro before i s after key signature h hstate hcollateral hkey hsign
    have hb := spaced before _ h
    refine Node.relays_sendPing hstate hcollateral hkey hsign hb.last fun last hlast => ?_
    -- The last ping has the time of an earlier reading.
    have hseen : last.sigTime ∈ readings before :=
      hb.times.subset (List.mem_map_of_mem (List.mem_of_getLast? hlast))
    have hreadings : readings es = readings before ++ s.now :: readings after := by
      rw [h]
      unfold readings
      rw [List.filterMap_append]
      rfl
    refine hfit s.now ?_ last.sigTime ?_
    · rw [hreadings]
      exact List.mem_append_right _ List.mem_cons_self
    · rw [hreadings]
      exact List.mem_append_left _ hseen
  · exact (spaced es [] (by simp)).apart
  · exact (spaced es [] (by simp)).pairwise

/-- Two nodes with one collateral. The first is found once the registry lists its masternode before a disabled one with
the same key. The second tries a second too early, and again a second later. -/
theorem ping_spacing_two_nodes :
    let c : OutPoint := ⟨0, 1⟩
    let key : KeyPair := ⟨0⟩
    let m : Identity := ⟨c, .v4 ⟨10, 0, 0, 1⟩ 53572, key.publicKey, 70920, true, none⟩
    let old : Identity := ⟨⟨0, 2⟩, .v4 ⟨10, 0, 0, 2⟩ 53572, key.publicKey, 70920, false, none⟩
    let node : Node := .new ⟨true, none, "", .mainnet, 70920⟩ (some key)
    let meets (now : Int64) : Surroundings := ⟨true, none, fun _ => false, now, .ed25519⟩
    let w : World Bool := ⟨fun _ => node, (Registry.empty.insert old).insert m, []⟩
    let es : List (Event Bool) := [.reorder ((Registry.empty.insert m).insert old), .act true (.manage (meets 1000)),
      .change (.remove old.collateral), .act false (.enable c m.endpoint), .act false (.manage (meets 1299)),
      .act false (.ping (meets 1300))]
    w.registry.findByCollateral c = some m ∧ m.lastPing = none ∧ w.calls = [] ∧ (∀ e ∈ es, e.Leaves c) ∧
    (∀ a ∈ readings es, ∀ b ∈ readings es, (a.toInt - b.toInt).natAbs < 0x8000000000000000) ∧
    ((w.run es).relayed c).map Ping.sigTime = [1000, 1300] ∧
    (w.run es).registry.findByCollateral c = some { m with lastPing := ((w.run es).relayed c).getLast? } ∧
    ((w.run es).relayed c).Pairwise fun p q => 300 ≤ (q.sigTime.toInt - p.sigTime.toInt).natAbs := by
  intro c key m old node meets w es
  have hm : w.registry.findByCollateral c = some m := by decide +kernel
  have hleaves : ∀ e ∈ es, e.Leaves c := by
    intro e he
    simp only [es, List.mem_cons, List.not_mem_nil, or_false] at he
    rcases he with rfl | rfl | rfl | rfl | rfl | rfl
    case inr.inr.inl => exact (by decide : old.collateral ≠ c)
    all_goals trivial
  have hfit : ∀ a ∈ readings es, ∀ b ∈ readings es, (a.toInt - b.toInt).natAbs < 0x8000000000000000 := by
    have hlist : readings es = [1000, 1299, 1300] := rfl
    rw [hlist]
    simp only [List.forall_mem_cons, List.not_mem_nil, false_implies, implies_true, and_true]
    decide
  have hrelayed : ((w.run es).relayed c).map Ping.sigTime = [1000, 1300] := by decide +kernel
  obtain ⟨last, -, -, spaced⟩ := ping_spacing hm rfl rfl hleaves hfit
  exact ⟨hm, rfl, rfl, hleaves, hfit, hrelayed, last es [] rfl, spaced (by decide +kernel)⟩

end AuditChain.Masternode
