import AuditChain.Proofs.Polls
import AuditChain.Proofs.Runs
/-!
# A reset node is as good as new

A node keeps the collateral and the address of an earlier start when it is stopped or reset. Whatever it does, it
reads them only while it is started, and then they are those of its last start. So two nodes that are not started and
differ in nothing else are `Alike`: each operation answers the same for both, and leaves them alike.
-/

namespace AuditChain.Masternode

open Net (Endpoint)

/-! ## Nodes that nothing tells apart -/

/-- The same node, but for what an earlier start left behind in it. -/
structure Node.Alike (n n' : Node) : Prop where
  settings : n.settings = n'.settings
  key : n.key = n'.key
  state : n.state = n'.state
  collateral : n.state = .started → n.collateral = n'.collateral
  service : n.state = .started → n.service = n'.service

/-- The same answer, the same writes and the same calls, by nodes that are alike afterwards. -/
structure Turn.Alike {α : Type} (t t' : Turn α) : Prop where
  result : t.result = t'.result
  node : t.node.Alike t'.node
  registry : t.registry = t'.registry
  calls : t.calls = t'.calls

namespace Node

variable {n n' : Node}

theorem Alike.refl (n : Node) : n.Alike n := ⟨rfl, rfl, rfl, fun _ => rfl, fun _ => rfl⟩

/-- Nodes that are not started may have any collateral and any address. -/
theorem alike_of_not_started (hsettings : n.settings = n'.settings) (hkey : n.key = n'.key) (hstate : n.state = n'.state)
    (h : n.state ≠ .started) : n.Alike n' :=
  ⟨hsettings, hkey, hstate, fun hstarted => absurd hstarted h, fun hstarted => absurd hstarted h⟩

namespace Alike

variable (h : n.Alike n')

include h

theorem eq_of_started (hstate : n.state = .started) : n = n' := by
  obtain ⟨settings, key, state, collateral, service⟩ := n
  obtain ⟨settings', key', state', collateral', service'⟩ := n'
  rw [Node.mk.injEq]
  exact ⟨h.settings, h.key, h.state, h.collateral hstate, h.service hstate⟩

theorem initial : Node.Alike { n with state := .initial } { n' with state := .initial } :=
  alike_of_not_started h.settings h.key rfl nofun

theorem publicKey? : n.publicKey? = n'.publicKey? := congrArg (Option.map KeyPair.publicKey) h.key

/-! ## Starting -/

theorem enable (collateral : OutPoint) (service : Endpoint) :
    (n.enable collateral service).1 = (n'.enable collateral service).1 ∧
      (n.enable collateral service).2.Alike (n'.enable collateral service).2 := by
  unfold Node.enable
  rw [h.settings]
  split
  · exact ⟨rfl, rfl, h.key, rfl, fun _ => rfl, fun _ => rfl⟩
  · exact ⟨rfl, h⟩

theorem startFromEntry (e : Entry) : (n.startFromEntry e).2.Alike (n'.startFromEntry e).2 := by
  have hread : n.readEntry e = n'.readEntry e := by
    unfold Node.readEntry
    rw [h.publicKey?]
  unfold Node.startFromEntry
  rw [hread]
  split
  · exact h
  · exact (h.enable _ _).2

theorem startNamed (c : Conf) (name : String) : (n.startNamed c name).2.Alike (n'.startNamed c name).2 := by
  unfold Node.startNamed
  split
  · exact h
  · exact h.startFromEntry _

theorem enableFromRegistry (r : Registry) :
    (n.enableFromRegistry r).1.Alike (n'.enableFromRegistry r).1 ∧
      (n.enableFromRegistry r).2 = (n'.enableFromRegistry r).2 := by
  have hown : n.ownIdentity? r = n'.ownIdentity? r := by
    unfold Node.ownIdentity?
    rw [h.publicKey?, h.settings]
  unfold Node.enableFromRegistry
  rw [hown, h.publicKey?]
  dsimp only
  split
  · exact ⟨(h.enable _ _).2, rfl⟩
  · exact ⟨h, rfl⟩

theorem tryStart (r : Registry) :
    (n.tryStart r).1.Alike (n'.tryStart r).1 ∧ (n.tryStart r).2 = (n'.tryStart r).2 := by
  unfold Node.tryStart
  rw [← h.state]
  split
  · exact h.initial.enableFromRegistry r
  · exact ⟨h, rfl⟩

/-! ## Polling -/

/-- Only a started node reads its collateral to ping. -/
theorem sendPing (s : Surroundings) (r : Registry) : (n.sendPing s r).Alike (n'.sendPing s r) := by
  by_cases hstate : n.state = .started
  · rw [h.eq_of_started hstate]
    exact ⟨rfl, .refl _, rfl, rfl⟩
  · rw [sendPing_of_not_started hstate, sendPing_of_not_started (h.state ▸ hstate)]
    exact ⟨rfl, h, rfl, rfl⟩

/-- The address to serve on is found anew, before it is checked. -/
theorem checkCapability (s : Surroundings) :
    (n.checkCapability s).1.Alike (n'.checkCapability s).1 ∧ (n.checkCapability s).2 = (n'.checkCapability s).2 := by
  have hresolve : n.resolveService s = n'.resolveService s := by
    unfold Node.resolveService
    rw [h.settings]
  have hcheck : ∀ service, n.checkService s service = n'.checkService s service := by
    intro service
    unfold Node.checkService
    rw [h.settings]
  unfold Node.checkCapability
  rw [hresolve]
  -- either way the node ends as not capable, so nothing is asked of its collateral and address
  split
  · exact ⟨alike_of_not_started h.settings h.key rfl nofun, rfl⟩
  · dsimp only
    rw [hcheck]
    exact ⟨alike_of_not_started h.settings h.key rfl nofun, rfl⟩

theorem pollSynced (s : Surroundings) (r : Registry) : (n.pollSynced s r).Alike (n'.pollSynced s r) := by
  obtain ⟨htry, hlookups⟩ := h.tryStart r
  unfold Node.pollSynced
  dsimp only
  rw [← htry.state, ← hlookups]
  split
  · have hping := htry.sendPing s r
    exact ⟨congrArg (Except.map fun _ => ()) hping.result, hping.node, hping.registry,
      congrArg ((n.tryStart r).2 ++ ·) hping.calls⟩
  · obtain ⟨hnode, hcalls⟩ := htry.checkCapability s
    exact ⟨rfl, hnode, rfl, congrArg ((n.tryStart r).2 ++ ·) hcalls⟩

theorem manageStatus (s : Surroundings) (r : Registry) : (n.manageStatus s r).Alike (n'.manageStatus s r) := by
  have hpoll := h.pollSynced s r
  unfold Node.manageStatus Node.skipsSync
  rw [← h.settings]
  split
  · exact ⟨rfl, h, rfl, rfl⟩
  split
  · exact hpoll
  split
  · exact ⟨rfl, alike_of_not_started rfl h.key rfl nofun, rfl, rfl⟩
  · exact ⟨hpoll.result, hpoll.node, hpoll.registry, congrArg (Call.askSync :: ·) hpoll.calls⟩

/-! ## Operations -/

theorem perform (r : Registry) (o : Op) : (n.perform r o).Alike (n'.perform r o) := by
  cases o with
  | manage s =>
    have hpoll := h.manageStatus s r
    exact ⟨rfl, hpoll.node, hpoll.registry, hpoll.calls⟩
  | reset s =>
    have hpoll := h.initial.manageStatus s r
    exact ⟨rfl, hpoll.node, hpoll.registry, hpoll.calls⟩
  | ping s =>
    have hping := h.sendPing s r
    exact ⟨rfl, hping.node, hping.registry, hping.calls⟩
  | enable collateral service => exact ⟨rfl, (h.enable collateral service).2, rfl, rfl⟩
  | startFrom e => exact ⟨rfl, h.startFromEntry e, rfl, rfl⟩
  | startNamed c name => exact ⟨rfl, h.startNamed c name, rfl, rfl⟩

end Alike

/-- Before it polls, a reset node is like a new one. -/
theorem alike_new (settings : Settings) (key : Option KeyPair) (qs : List (Registry × Op)) :
    Node.Alike { ((History.start settings key).run qs).node with state := .initial } (.new settings key) := by
  obtain ⟨hsettings, hkey⟩ := History.continues_run settings key qs
  exact alike_of_not_started hsettings hkey rfl nofun

end Node

/-! ## Runs -/

namespace World

variable {ι : Type} {w w' : World ι}

/-- The same world, but for what earlier starts left behind in its nodes. -/
structure Alike (w w' : World ι) : Prop where
  nodes : ∀ i, (w.nodes i).Alike (w'.nodes i)
  registry : w.registry = w'.registry
  calls : w.calls = w'.calls

variable [DecidableEq ι]

theorem Alike.update (h : w.Alike w') {n n' : Node} (hn : n.Alike n') (i : ι) (r : Registry) (calls : List Call) :
    World.Alike ⟨Function.update w.nodes i n, r, calls⟩ ⟨Function.update w'.nodes i n', r, calls⟩ := by
  refine ⟨fun j => ?_, rfl, rfl⟩
  by_cases hj : j = i
  · subst hj
    simpa using hn
  · simpa [hj] using h.nodes j

theorem Alike.step (h : w.Alike w') (e : Event ι) : (w.step e).Alike (w'.step e) := by
  cases e with
  | act i o =>
    have ht := (h.nodes i).perform w.registry o
    simp only [World.step, ← h.registry, ← h.calls, ← ht.registry, ← ht.calls]
    exact h.update ht.node i _ _
  | change c => exact ⟨h.nodes, congrArg (Registry.apply · c) h.registry, h.calls⟩
  | reorder r =>
    simp only [World.step, ← h.registry]
    split
    · exact ⟨h.nodes, rfl, h.calls⟩
    · exact h

theorem Alike.run (h : w.Alike w') (es : List (Event ι)) : (w.run es).Alike (w'.run es) := by
  induction es generalizing w w' with
  | nil => exact h
  | cons e es ih => exact ih (h.step e)

end World

/-! ## Main theorem -/

/-- However a node came to its state: resetting it answers, writes and asks just what polling a new node with its
settings and its key does, in the same surroundings and with the same registry. Both end in the same state, and if they
are started, with the same collateral and the same address. Nor does it come out later: put either of them among
other nodes that share a registry, and whatever happens there from then on, everyone's states, the registry and the
calls are the same. -/
theorem resetStatus_as_new (settings : Settings) (key : Option KeyPair) (qs : List (Registry × Op)) (s : Surroundings)
    (r : Registry) :
    let n := ((History.start settings key).run qs).node
    let t := n.resetStatus s r
    let t' := (Node.new settings key).manageStatus s r
    t.result = t'.result ∧ t.node.state = t'.node.state ∧ t.registry = t'.registry ∧ t.calls = t'.calls ∧
    (t.node.state = .started → t.node.collateral = t'.node.collateral ∧ t.node.service = t'.node.service) ∧
    ∀ (ι : Type) [DecidableEq ι] (nodes : ι → Node) (i : ι) (es : List (Event ι)),
      let w := (World.mk (Function.update nodes i t.node) t.registry t.calls).run es
      let w' := (World.mk (Function.update nodes i t'.node) t'.registry t'.calls).run es
      (∀ j, (w.nodes j).state = (w'.nodes j).state) ∧ w.registry = w'.registry ∧ w.calls = w'.calls := by
  intro n t t'
  have ht : t.Alike t' := (Node.alike_new settings key qs).manageStatus s r
  refine ⟨ht.result, ht.node.state, ht.registry, ht.calls, fun hstarted => ?_, fun ι _ nodes i es => ?_⟩
  · exact ⟨ht.node.collateral hstarted, ht.node.service hstarted⟩
  · -- the registry and the calls so far are replaced by those of the two turns, which are the same
    have hnodes : World.Alike ⟨nodes, r, []⟩ ⟨nodes, r, []⟩ := ⟨fun _ => .refl _, rfl, rfl⟩
    rw [← ht.registry, ← ht.calls]
    have hrun := (hnodes.update ht.node i t.registry t.calls).run es
    exact ⟨fun j => (hrun.nodes j).state, hrun.registry, hrun.calls⟩

/-- A node that its controller started is reset. If the registry has the node elsewhere, it starts there and pings like
a new one. If not, its old collateral is left in it, and nothing comes of that. -/
theorem resetStatus_as_new_leftover :
    let key : KeyPair := ⟨0⟩
    let m : Identity := ⟨⟨0, 2⟩, .v4 ⟨10, 0, 0, 2⟩ 53572, key.publicKey, 70920, true, none⟩
    let settings : Settings := ⟨true, none, "", .mainnet, 70920⟩
    let qs : List (Registry × Op) := [(.empty, .enable ⟨0, 1⟩ (.v4 ⟨10, 0, 0, 1⟩ 53572))]
    let s : Surroundings := ⟨true, none, fun _ => false, 1000, .ed25519⟩
    let reset (r : Registry) := ((History.start settings (some key)).run qs).node.resetStatus s r
    let new (r : Registry) := (Node.new settings (some key)).manageStatus s r
    let there := Registry.empty.insert m
    (reset there).node.state = .started ∧ (reset there).node.collateral = some m.collateral ∧
    (relays (reset there).calls).length = 1 ∧ (new there).node.collateral = some m.collateral ∧
    (reset there).registry = (new there).registry ∧ (reset there).calls = (new there).calls ∧
    (reset .empty).node.collateral = some ⟨0, 1⟩ ∧ (new .empty).node.collateral = none ∧
    (reset .empty).node.state = .notCapable .noAddress ∧ (new .empty).node.state = .notCapable .noAddress := by
  intro key m settings qs s reset new there
  have hthere : (reset there).node.state = .started ∧ (reset there).node.collateral = some m.collateral ∧
      (relays (reset there).calls).length = 1 := by decide +kernel
  have hleft : (reset .empty).node.state = .notCapable .noAddress ∧ (reset .empty).node.collateral = some ⟨0, 1⟩ ∧
      (new .empty).node.collateral = none := by decide +kernel
  obtain ⟨-, -, hregistry, hcalls, hplace, -⟩ := resetStatus_as_new settings (some key) qs s there
  obtain ⟨-, hstate, -⟩ := resetStatus_as_new settings (some key) qs s .empty
  exact ⟨hthere.1, hthere.2.1, hthere.2.2, (hplace hthere.1).1.symm.trans hthere.2.1, hregistry, hcalls,
    hleft.2.1, hleft.2.2, hleft.1, hstate.symm.trans hleft.1⟩

end AuditChain.Masternode
