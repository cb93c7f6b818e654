import AuditChain.Proofs.StartedNode
/-!
# Polls act in turn

One poll can take a node from waiting for the chain to running and stopping again. It asks its surroundings one
question at a time, and the others may write the registry between the search for the node's key and the ping, so
`Node.pollAcross` lets these two meet registries of their own. `Polling` lists all that a poll can come to, with
all that it asks and tells.
-/

namespace AuditChain.Masternode

open Net (Endpoint)

/-! ## One poll -/

/-- The two ways to poll a node. -/
inductive Poll where
  | manage
  | reset
deriving DecidableEq

/-- The node as it enters a poll. -/
def Poll.enter : Poll → Node → Node
  | manage, n => n
  | reset, n => { n with state := .initial }

namespace Node

def poll (n : Node) (p : Poll) (s : Surroundings) (r : Registry) : Turn (Except TimeOverflow Unit) :=
  match p with
  | .manage => n.manageStatus s r
  | .reset => n.resetStatus s r

/-- A poll does not have to wait for the chain. -/
def Open (n : Node) (s : Surroundings) : Prop := n.skipsSync = true ∨ s.synced = true

instance (n : Node) (s : Surroundings) : Decidable (n.Open s) := inferInstanceAs (Decidable (_ ∨ _))

/-- What a poll asks about the chain. -/
def syncCalls (n : Node) : List Call := if n.skipsSync then [] else [.askSync]

/-- A poll that looks for the node's key in the registry `r` and meets `r'` when it pings. -/
def pollAcross (n : Node) (p : Poll) (s : Surroundings) (r r' : Registry) : Turn (Except TimeOverflow Unit) :=
  let n := p.enter n
  if n.settings.masternode = false then ⟨.ok (), n, r', []⟩
  else if n.Open s then
    let (found, lookups) := n.tryStart r
    if found.state = .started then
      let t := found.sendPing s r'
      ⟨t.result.map fun _ => (), t.node, t.registry, n.syncCalls ++ lookups ++ t.calls⟩
    else ⟨.ok (), (found.checkCapability s).1, r', n.syncCalls ++ lookups ++ (found.checkCapability s).2⟩
  else ⟨.ok (), { n with state := .syncing }, r', [.askSync]⟩

variable {n : Node} {p : Poll} {s : Surroundings} {r r' : Registry}

theorem poll_eq (n : Node) (p : Poll) (s : Surroundings) (r : Registry) :
    n.poll p s r = (p.enter n).manageStatus s r := by
  cases p <;> rfl

/-- A poll that nobody comes between meets one registry. -/
theorem pollAcross_self (n : Node) (p : Poll) (s : Surroundings) (r : Registry) :
    n.pollAcross p s r r = n.poll p s r := by
  rw [poll_eq]
  unfold pollAcross manageStatus pollSynced syncCalls Open
  generalize p.enter n = n
  by_cases hrole : n.settings.masternode = true
  · by_cases hskip : n.skipsSync = true
    · by_cases hstart : (n.tryStart r).1.state = .started <;> simp [hrole, hskip, hstart]
    · by_cases hsync : s.synced = true
      · by_cases hstart : (n.tryStart r).1.state = .started <;> simp [hrole, hskip, hsync, hstart]
      · simp [hrole, hskip, hsync]
  · simp [hrole]

/-- All that a poll can come to: the node has no role, or waits for the chain, or is started after it looked for itself
in the registry and pings, or is not and finds out why. -/
inductive Polling (n : Node) (s : Surroundings) (r r' : Registry) : Turn (Except TimeOverflow Unit) → Prop
  | idle (role : n.settings.masternode = false) : Polling n s r r' ⟨.ok (), n, r', []⟩
  | waiting (role : n.settings.masternode = true) (gate : ¬n.Open s) :
      Polling n s r r' ⟨.ok (), { n with state := .syncing }, r', [.askSync]⟩
  | running {t} (role : n.settings.masternode = true) (gate : n.Open s) (start : (n.tryStart r).1.state = .started)
      (ping : (n.tryStart r).1.Pinging s r' t) :
      Polling n s r r' ⟨t.result.map fun _ => (), t.node, t.registry, n.syncCalls ++ (n.tryStart r).2 ++ t.calls⟩
  | held (role : n.settings.masternode = true) (gate : n.Open s) (start : (n.tryStart r).1.state ≠ .started) :
      Polling n s r r' ⟨.ok (), ((n.tryStart r).1.checkCapability s).1, r',
        n.syncCalls ++ (n.tryStart r).2 ++ ((n.tryStart r).1.checkCapability s).2⟩

theorem pollAcross_cases (n : Node) (p : Poll) (s : Surroundings) (r r' : Registry) :
    (p.enter n).Polling s r r' (n.pollAcross p s r r') := by
  unfold pollAcross
  dsimp only
  generalize p.enter n = n
  split
  · exact .idle ‹_›
  rename_i hrole
  have role : n.settings.masternode = true := eq_true_of_ne_false hrole
  split
  · rename_i gate
    split
    · exact .running role gate ‹_› (sendPing_cases _ s r')
    · exact .held role gate ‹_›
  · exact .waiting role ‹_›

theorem manageStatus_cases (n : Node) (s : Surroundings) (r : Registry) : n.Polling s r r (n.manageStatus s r) := by
  have hcases := n.pollAcross_cases .manage s r r
  rwa [pollAcross_self] at hcases

theorem skipsSync_eq_true_iff : n.skipsSync = true ↔ n.settings.network = .regtest := by
  unfold skipsSync Network.isRegtest
  exact beq_iff_eq

/-! ## Looking for the node -/

theorem ownIdentity?_eq_some_iff {m : Identity} :
    n.ownIdentity? r = some m ↔ ∃ key, n.key = some key ∧ r.findByKey key.publicKey = some m ∧ m.enabled = true ∧
      m.protocolVersion = n.settings.protocolVersion := by
  unfold ownIdentity? publicKey?
  cases n.key with
  | none => simp
  | some key =>
    cases hfind : r.findByKey key.publicKey with
    | none => simp [hfind]
    | some m' =>
      simp only [hfind, Option.map_some, Option.bind_eq_bind, Option.bind_some, Bool.and_eq_true, beq_iff_eq,
        Option.pure_def, Option.ite_none_right_eq_some, Option.some.injEq, exists_eq_left']
      constructor
      · rintro ⟨h, rfl⟩
        exact ⟨rfl, h⟩
      · rintro ⟨rfl, h⟩
        exact ⟨h, rfl⟩

/-- A poll finds its node started only if it was before, or was looked up in the registry and enabled from there. -/
theorem of_tryStart (start : (n.tryStart r).1.state = .started) :
    (n.state = .started ∧ n.tryStart r = (n, [])) ∨
    ((n.state = .initial ∨ n.state = .syncing) ∧
      ∃ key m, (n.key = some key ∧ r.findByKey key.publicKey = some m ∧ m.enabled = true ∧
          m.protocolVersion = n.settings.protocolVersion) ∧
        n.tryStart r =
          (({ n with state := .initial }.enable m.collateral m.endpoint).2, [.findByKey key.publicKey])) := by
  unfold tryStart at start ⊢
  split
  · rename_i hwaits
    rw [if_pos hwaits] at start
    unfold enableFromRegistry at start ⊢
    dsimp only at start ⊢
    split at start
    · rename_i m hm
      obtain ⟨key, hkey, hfound⟩ := ownIdentity?_eq_some_iff.1 hm
      have hlookups : ({ n with state := .initial } : Node).publicKey?.toList.map Call.findByKey =
          [.findByKey key.publicKey] := by
        rw [publicKey?, hkey]
        rfl
      exact .inr ⟨hwaits.symm, key, m, ⟨hkey, hfound⟩, by rw [hlookups]⟩
    · cases start
  · rename_i hwaits
    rw [if_neg hwaits] at start
    exact .inl ⟨start, rfl⟩

theorem tryStart_of_notCapable {o : Obstacle} (h : n.state = .notCapable o) (r : Registry) : n.tryStart r = (n, []) := by
  simp [tryStart, h]

theorem relays_syncCalls (n : Node) : relays n.syncCalls = [] := by
  unfold syncCalls
  split <;> rfl

/-- What is asked before a poll acts relays nothing. -/
theorem relays_pollCalls (n : Node) (r : Registry) (calls : List Call) :
    relays (n.syncCalls ++ (n.tryStart r).2 ++ calls) = relays calls := by
  rw [relays_append, relays_append, relays_syncCalls, relays_tryStart]
  rfl

/-! ## Settings and keys stay -/

/-- The settings and the key with which a node was made stay with it. -/
def Continues (n n' : Node) : Prop := n'.settings = n.settings ∧ n'.key = n.key

theorem Continues.trans {n n' n'' : Node} (h : n.Continues n') (h' : n'.Continues n'') : n.Continues n'' :=
  ⟨h'.1.trans h.1, h'.2.trans h.2⟩

theorem Continues.skipsSync {n n' : Node} (h : n.Continues n') : n'.skipsSync = n.skipsSync := by
  rw [Node.skipsSync, h.1, Node.skipsSync]

theorem continues_enabledBy (n : Node) (target : Option (OutPoint × Endpoint)) : n.Continues (n.enabledBy target) := by
  cases target <;> exact ⟨rfl, rfl⟩

theorem continues_tryStart (n : Node) (r : Registry) : n.Continues (n.tryStart r).1 := by
  unfold tryStart
  split
  · unfold enableFromRegistry
    split
    · unfold enable
      split <;> exact ⟨rfl, rfl⟩
    · exact ⟨rfl, rfl⟩
  · exact ⟨rfl, rfl⟩

theorem continues_checkCapability (n : Node) (s : Surroundings) : n.Continues (n.checkCapability s).1 := by
  unfold checkCapability
  split <;> exact ⟨rfl, rfl⟩

/-! ## What a poll can come to -/

namespace Pinging

variable {t : Turn (Except TimeOverflow (Except NodeError Unit))} (h : n.Pinging s r t)

include h

theorem state : t.node.state = n.state ∨ t.node.state = .notCapable .notRegistered := by
  cases h with
  | unregistered => exact .inr rfl
  | idle | unsigned | overflow | early | relayed => exact .inl rfl

theorem length_relays : (relays t.calls).length ≤ 1 := by
  cases h with
  | idle | unsigned | unregistered | overflow | early => exact Nat.zero_le 1
  | relayed =>
    rw [relays_pingCalls]
    exact Nat.le_refl 1

theorem continues : n.Continues t.node := by
  cases h <;> exact ⟨rfl, rfl⟩

end Pinging

namespace Polling

variable {t : Turn (Except TimeOverflow Unit)} (h : n.Polling s r r' t)

include h

/-- What relays a ping, or leaves a node started that can be started, passed every guard. -/
theorem guards (hidle : n.settings.masternode = false → n.state ≠ .started)
    (hact : relays t.calls ≠ [] ∨ t.node.state = .started) :
    n.settings.masternode = true ∧ (n.skipsSync = true ∨ (.askSync ∈ t.calls ∧ s.synced = true)) ∧
      (n.state = .started ∨ (n.state = .initial ∨ n.state = .syncing) ∧
        ∃ k m, n.key = some k ∧ .findByKey k.publicKey ∈ t.calls ∧ r.findByKey k.publicKey = some m ∧
          m.enabled = true ∧ m.protocolVersion = n.settings.protocolVersion) := by
  cases h with
  | idle role =>
    rcases hact with hrelay | hstarted
    · exact absurd rfl hrelay
    · exact absurd hstarted (hidle role)
  | waiting =>
    rcases hact with hrelay | hstarted
    · exact absurd rfl hrelay
    · cases hstarted
  | running role gate start ping =>
    refine ⟨role, ?_, ?_⟩
    · cases hskip : n.skipsSync with
      | true => exact .inl rfl
      | false =>
        have hsync : s.synced = true := gate.resolve_left (by simp [hskip])
        exact .inr ⟨by simp [syncCalls, hskip], hsync⟩
    · rcases of_tryStart start with ⟨hstarted, -⟩ | ⟨hwaits, k, m, ⟨hkey, hfound⟩, htry⟩
      · exact .inl hstarted
      · exact .inr ⟨hwaits, k, m, hkey, by simp [htry], hfound⟩
  | held =>
    rcases hact with hrelay | hstarted
    · rw [relays_pollCalls, relays_checkCapability] at hrelay
      exact absurd rfl hrelay
    · obtain ⟨o, ho⟩ := (n.tryStart r).1.checkCapability_state s
      cases ho.symm.trans hstarted

theorem state_ne_initial (role : n.settings.masternode = true) : t.node.state ≠ .initial := by
  cases h with
  | idle role' => simp [role] at role'
  | waiting => simp
  | running _ _ start ping =>
    rcases ping.state with hsame | hlost
    · simp [hsame, start]
    · simp [hlost]
  | held =>
    obtain ⟨o, ho⟩ := (n.tryStart r).1.checkCapability_state s
    simp [ho]

/-- A node that cannot run only waits for someone to start it. -/
theorem notCapable (gate : n.Open s) (hn : ∃ o, n.state = .notCapable o) : ∃ o, t.node.state = .notCapable o := by
  obtain ⟨o, ho⟩ := hn
  cases h with
  | idle => exact ⟨o, ho⟩
  | waiting _ closed => exact absurd gate closed
  | running _ _ start =>
    rw [tryStart_of_notCapable ho, ho] at start
    cases start
  | held => exact (n.tryStart r).1.checkCapability_state s

theorem length_relays : (relays t.calls).length ≤ 1 := by
  cases h with
  | idle | waiting => exact Nat.zero_le 1
  | running _ _ _ ping =>
    rw [relays_pollCalls]
    exact ping.length_relays
  | held =>
    rw [relays_pollCalls, relays_checkCapability]
    exact Nat.zero_le 1

theorem continues : n.Continues t.node := by
  cases h with
  | idle | waiting => exact ⟨rfl, rfl⟩
  | running _ _ _ ping => exact (n.continues_tryStart r).trans ping.continues
  | held => exact (n.continues_tryStart r).trans ((n.tryStart r).1.continues_checkCapability s)

end Polling

/-! ## The guards of a poll -/

/-- A poll that pings, or leaves the node started, met the chain synced, and went on from a started node or found the
node in the registry. -/
theorem pollAcross_guards (hidle : n.settings.masternode = false → n.state ≠ .started)
    (hact : relays (n.pollAcross p s r r').calls ≠ [] ∨ (n.pollAcross p s r r').node.state = .started) :
    n.settings.masternode = true ∧
    (n.settings.network = .regtest ∨ (.askSync ∈ (n.pollAcross p s r r').calls ∧ s.synced = true)) ∧
    ((p = .manage ∧ n.state = .started) ∨
      ((p = .reset ∨ n.state = .initial ∨ n.state = .syncing) ∧
        ∃ k m, n.key = some k ∧ .findByKey k.publicKey ∈ (n.pollAcross p s r r').calls ∧
          r.findByKey k.publicKey = some m ∧ m.enabled = true ∧ m.protocolVersion = n.settings.protocolVersion)) := by
  have hcases := n.pollAcross_cases p s r r'
  cases p with
  | manage =>
    obtain ⟨role, gate, start⟩ := hcases.guards hidle hact
    refine ⟨role, gate.imp_left skipsSync_eq_true_iff.1, ?_⟩
    rcases start with hstarted | ⟨hwaits, hfound⟩
    · exact .inl ⟨rfl, hstarted⟩
    · exact .inr ⟨.inr hwaits, hfound⟩
  | reset =>
    obtain ⟨role, gate, start⟩ := hcases.guards (fun _ => nofun) hact
    refine ⟨role, gate.imp_left skipsSync_eq_true_iff.1, ?_⟩
    rcases start with hstarted | ⟨-, hfound⟩
    · cases hstarted
    · exact .inr ⟨.inl rfl, hfound⟩

theorem pollAcross_ne_initial (p : Poll) (role : n.settings.masternode = true) :
    (n.pollAcross p s r r').node.state ≠ .initial := by
  refine (n.pollAcross_cases p s r r').state_ne_initial ?_
  cases p <;> exact role

/-- A poll that finds the chain not synced leaves everybody but the node alone. -/
theorem pollAcross_of_unsynced (p : Poll) (role : n.settings.masternode = true)
    (hnetwork : n.settings.network ≠ .regtest) (sync : s.synced = false) :
    n.pollAcross p s r r' = ⟨.ok (), { n with state := .syncing }, r', [.askSync]⟩ := by
  have gate : ¬n.Open s := by simp [Open, skipsSync_eq_true_iff, hnetwork, sync]
  unfold pollAcross
  cases p <;> exact (if_neg (by simp [Poll.enter, role])).trans (if_neg gate)

/-- What comes between matters to a poll only if it pings. -/
theorem node_pollAcross (n : Node) (p : Poll) (s : Surroundings) (r r' : Registry) :
    (n.pollAcross p s r r').node = (n.poll p s r).node ∨
    (p.enter n).settings.masternode = true ∧ ((p.enter n).tryStart r).1.state = .started ∧
      (n.pollAcross p s r r').node = (((p.enter n).tryStart r).1.sendPing s r').node := by
  rw [← pollAcross_self]
  unfold pollAcross
  dsimp only
  split
  · exact .inl rfl
  · split
    · split
      · exact .inr ⟨eq_true_of_ne_false ‹_›, ‹_›, rfl⟩
      · exact .inl rfl
    · exact .inl rfl

/-! ## Polls one after another -/

/-- The node after some polls, each with what it meets. -/
def manageAll (n : Node) (ps : List (Surroundings × Registry × Registry)) : Node :=
  ps.foldl (fun n q => (n.pollAcross .manage q.1 q.2.1 q.2.2).node) n

/-- Polls that find the chain synced start no node that cannot run. -/
theorem manageAll_notCapable (hn : ∃ o, n.state = .notCapable o) {ps : List (Surroundings × Registry × Registry)}
    (hsync : ∀ q ∈ ps, n.Open q.1) : ∃ o, (n.manageAll ps).state = .notCapable o := by
  induction ps generalizing n with
  | nil => exact hn
  | cons q ps ih =>
    have hpoll := n.pollAcross_cases .manage q.1 q.2.1 q.2.2
    refine ih (hpoll.notCapable (hsync q List.mem_cons_self) hn) fun q' hq' => ?_
    exact (hsync q' (List.mem_cons_of_mem _ hq')).imp_left hpoll.continues.skipsSync.trans

/-! ## Operations -/

theorem continues_perform (n : Node) (r : Registry) (o : Op) : n.Continues (n.perform r o).node := by
  cases o with
  | manage s => exact (n.manageStatus_cases s r).continues
  | reset s => exact (manageStatus_cases { n with state := .initial } s r).continues
  | ping s => exact (n.sendPing_cases s r).continues
  | enable collateral service =>
    have hnode : (n.perform r (.enable collateral service)).node = n.enabledBy _ := n.enable_eq collateral service
    exact hnode ▸ n.continues_enabledBy _
  | startFrom e =>
    have hnode : (n.perform r (.startFrom e)).node = n.enabledBy _ := n.startFromEntry_eq e
    exact hnode ▸ n.continues_enabledBy _
  | startNamed c name =>
    have hnode : (n.perform r (.startNamed c name)).node = n.enabledBy _ := n.startNamed_eq c name
    exact hnode ▸ n.continues_enabledBy _

end Node

/-! ## Reachable nodes -/

namespace History

theorem run_append (t : History) (qs qs' : List (Registry × Op)) : t.run (qs ++ qs') = (t.run qs).run qs' :=
  List.foldl_append

theorem continues_run (settings : Settings) (key : Option KeyPair) (qs : List (Registry × Op)) :
    (Node.new settings key).Continues ((start settings key).run qs).node := by
  refine run_induction (P := fun t => (Node.new settings key).Continues t.node) ?_ ⟨rfl, rfl⟩ qs
  intro t q ht
  exact ht.trans (t.node.continues_perform q.1 q.2)

/-- Without the role nothing starts a node. -/
theorem not_started_of_idle {settings : Settings} (h : settings.masternode = false) (key : Option KeyPair)
    (qs : List (Registry × Op)) : ((start settings key).run qs).node.state ≠ .started := by
  rw [run_of_inert (Node.inert_new h key) qs]
  exact nofun

/-- What others write during a poll leads its node nowhere where operations one at a time do not. -/
theorem exists_run_eq_pollAcross (t : History) (p : Poll) (s : Surroundings) (r r' : Registry) :
    ∃ qs, (t.run qs).node = (t.node.pollAcross p s r r').node := by
  rcases t.node.node_pollAcross p s r r' with hpoll | ⟨role, start, hping⟩
  · rw [hpoll]
    cases p with
    | manage => exact ⟨[(r, .manage s)], rfl⟩
    | reset => exact ⟨[(r, .reset s)], rfl⟩
  rw [hping]
  rcases Node.of_tryStart start with ⟨hstarted, hsame⟩ | ⟨-, _, m, -, hfound⟩
  · rw [hsame]
    cases p with
    | manage => exact ⟨[(r', .ping s)], rfl⟩
    | reset => cases hstarted
  · have henable : ((p.enter t.node).tryStart r).1 = (t.node.enable m.collateral m.endpoint).2 := by
      have role' : t.node.settings.masternode = true := by cases p <;> exact role
      simp only [hfound, Node.enable, role, role', if_true]
      cases p <;> rfl
    rw [henable]
    exact ⟨[(r, .enable m.collateral m.endpoint), (r', .ping s)], rfl⟩

end History

/-! ## Main theorem -/

/-- However a node came to its state, whatever it is answered, and whatever others write meanwhile: a poll relays at most
one ping. It does so, or leaves the node started, only if the node has the role, the chain is synced or need not be, and
the node either was started and is polled on, or begins anew and looks its key up in the registry, where a masternode
that may run has it. A poll never leaves a node with the role at its beginning. One that finds the chain not synced makes
the node wait for it, and asks and tells nobody anything else. The writes of others lead to no states that are not
reached without them, and no number of polls with the chain synced starts a node that cannot run. -/
theorem polls_in_turn (settings : Settings) (key : Option KeyPair) (qs : List (Registry × Op)) :
    let n := ((History.start settings key).run qs).node
    (∀ p s r r',
      let t := n.pollAcross p s r r'
      (relays t.calls).length ≤ 1 ∧
      (relays t.calls ≠ [] ∨ t.node.state = .started →
        settings.masternode = true ∧ (settings.network = .regtest ∨ (.askSync ∈ t.calls ∧ s.synced = true)) ∧
        ((p = .manage ∧ n.state = .started) ∨
          ((p = .reset ∨ n.state = .initial ∨ n.state = .syncing) ∧
            ∃ k m, key = some k ∧ .findByKey k.publicKey ∈ t.calls ∧ r.findByKey k.publicKey = some m ∧
              m.enabled = true ∧ m.protocolVersion = settings.protocolVersion))) ∧
      (settings.masternode = true → t.node.state ≠ .initial) ∧
      (settings.masternode = true → settings.network ≠ .regtest → s.synced = false →
        t = ⟨.ok (), { n with state := .syncing }, r', [.askSync]⟩)) ∧
    (∀ p s r r', n.pollAcross p s r r = n.poll p s r ∧
      ∃ qs', ((History.start settings key).run (qs ++ qs')).node = (n.pollAcross p s r r').node) ∧
    (∀ ps : List (Surroundings × Registry × Registry), (∃ o, n.state = .notCapable o) →
      (∀ q ∈ ps, settings.network = .regtest ∨ q.1.synced = true) →
      ∃ o, (n.manageAll ps).state = .notCapable o) := by
  intro n
  obtain ⟨hsettings, hkey⟩ : n.settings = settings ∧ n.key = key := History.continues_run settings key qs
  have hidle : settings.masternode = false → n.state ≠ .started := fun role =>
    History.not_started_of_idle role key qs
  rw [← hsettings] at hidle
  refine ⟨fun p s r r' => ?_, fun p s r r' => ⟨n.pollAcross_self p s r, ?_⟩, fun ps hn hsync => ?_⟩
  · rw [← hsettings, ← hkey]
    exact ⟨(n.pollAcross_cases p s r r').length_relays, Node.pollAcross_guards hidle, Node.pollAcross_ne_initial p,
      Node.pollAcross_of_unsynced p⟩
  · obtain ⟨qs', hqs'⟩ := ((History.start settings key).run qs).exists_run_eq_pollAcross p s r r'
    exact ⟨qs', (congrArg History.node (History.run_append ..)).trans hqs'⟩
  · refine Node.manageAll_notCapable hn fun q hq => ?_
    exact (hsync q hq).imp_left fun hnetwork => Node.skipsSync_eq_true_iff.2 (hsettings ▸ hnetwork)

/-- A node waits for the chain, is found in the registry and pings, is lost from it while it is polled, and stays out
when it is there again. -/
theorem polls_in_turn_lost :
    let key : KeyPair := ⟨0⟩
    let m : Identity := ⟨⟨0, 1⟩, .v4 ⟨10, 0, 0, 1⟩ 53572, key.publicKey, 70920, true, none⟩
    let settings : Settings := ⟨true, none, "", .mainnet, 70920⟩
    let meets (synced : Bool) : Surroundings := ⟨synced, none, fun _ => false, 1000, .ed25519⟩
    let there : Registry := Registry.empty.insert m
    let waiting := ((History.start settings (some key)).run [(there, .manage (meets false))]).node
    let found := waiting.pollAcross .manage (meets true) there there
    let lost := ((History.start settings (some key)).run
      [(there, .manage (meets true)), (.empty, .manage (meets true))]).node
    waiting.state = .syncing ∧ found.node.state = .started ∧ (relays found.calls).length = 1 ∧
    (waiting.pollAcross .manage (meets true) there .empty).node.state = .notCapable .notRegistered ∧
    settings.masternode = true ∧ (settings.network = .regtest ∨ (.askSync ∈ found.calls ∧ (meets true).synced = true)) ∧
    lost.state = .notCapable .notRegistered ∧ lost.pollAcross .reset (meets false) there there =
      ⟨.ok (), { lost with state := .syncing }, there, [.askSync]⟩ ∧
    ∃ o, (lost.manageAll [(meets true, there, there)]).state = .notCapable o := by
  intro key m settings meets there waiting found lost
  have hwaiting : waiting.state = .syncing := by decide +kernel
  have hfound : found.node.state = .started ∧ (relays found.calls).length = 1 := by decide +kernel
  have hmissed : (waiting.pollAcross .manage (meets true) there .empty).node.state = .notCapable .notRegistered := by
    decide +kernel
  have hlost : lost.state = .notCapable .notRegistered := by decide +kernel
  obtain ⟨hpolls, -⟩ := polls_in_turn settings (some key) [(there, .manage (meets false))]
  obtain ⟨-, hguards, -, -⟩ := hpolls .manage (meets true) there there
  obtain ⟨hrole, hsync, -⟩ := hguards (.inr (by decide +kernel))
  obtain ⟨hlater, -, hstays⟩ := polls_in_turn settings (some key)
    [(there, .manage (meets true)), (.empty, .manage (meets true))]
  obtain ⟨-, -, -, hunsynced⟩ := hlater .reset (meets false) there there
  exact ⟨hwaiting, hfound.1, hfound.2, hmissed, hrole, hsync, hlost, hunsynced hrole (by decide) rfl,
    hstays [(meets true, there, there)] ⟨_, hlost⟩ fun q hq => .inr (List.mem_singleton.1 hq ▸ rfl)⟩

end AuditChain.Masternode
