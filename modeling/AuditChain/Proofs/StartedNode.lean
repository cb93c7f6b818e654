import AuditChain.Proofs.Checks
import AuditChain.Proofs.Operations
/-!
# A started node runs as it was enabled last

Polls, pings and starts write the state, the collateral and the address of a node each in its own combination.
What they agree on is that a node they leave started is as they met it, or else they enabled it,
which sets all three. A poll that finds the node in the registry does what enabling it and polling it do, so
nothing here depends on a registry that stays as it is during a poll.
-/

namespace AuditChain.Masternode

open Net (Endpoint)

/-! ## What enables a node -/

/-- The collateral and the address of an entry that has both. -/
def Entry.target? (e : Entry) : Option (OutPoint × Endpoint) :=
  match e.collateral, e.endpoint with
  | .ok collateral, .ok endpoint => some (collateral, endpoint)
  | _, _ => none

/-- What an entry enabled a node with, by the answer that it got. -/
def Entry.enabling? (e : Entry) : Except ConfigError Bool → Option (OutPoint × Endpoint)
  | .ok true => e.target?
  | _ => none

namespace Node

variable {n : Node} {s : Surroundings} {r : Registry}

/-- A poll looks for the node in the registry. -/
def Looks (n : Node) (s : Surroundings) : Prop :=
  n.settings.masternode = true ∧ (n.skipsSync = true ∨ s.synced = true) ∧ (n.state = .syncing ∨ n.state = .initial)

instance : Decidable (n.Looks s) := inferInstanceAs (Decidable (_ ∧ _ ∧ _))

/-- What a poll finds of the node in the registry, if it looks there. -/
def matched? (n : Node) (s : Surroundings) (r : Registry) : Option (OutPoint × Endpoint) :=
  if n.Looks s then (n.ownIdentity? r).map fun m => (m.collateral, m.endpoint) else none

/-- The collateral and the address that an operation enables a node with, if it does. -/
def enabling? (n : Node) (r : Registry) : Op → Option (OutPoint × Endpoint)
  | .manage s => n.matched? s r
  | .reset s => { n with state := .initial }.matched? s r
  | .ping _ => none
  | .enable collateral service => if (n.enable collateral service).1 then some (collateral, service) else none
  | .startFrom e => e.enabling? (n.startFromEntry e).1
  | .startNamed c name => (c.get? name).bind fun e => e.enabling? (n.startNamed c name).1

/-- The node after it was enabled, if it was. -/
def enabledBy (n : Node) : Option (OutPoint × Endpoint) → Node
  | none => n
  | some (collateral, service) =>
    { n with state := .started, collateral := some collateral, service := some service }

/-! ## Polls -/

theorem enable_of_masternode (h : n.settings.masternode = true) (collateral : OutPoint) (service : Endpoint) :
    n.enable collateral service = (true, n.enabledBy (some (collateral, service))) := if_pos h

theorem tryStart_of_started (h : n.state = .started) (r : Registry) : n.tryStart r = (n, []) := by
  simp [tryStart, h]

theorem tryStart_of_looks (h : n.Looks s) (r : Registry) :
    (n.tryStart r).1 = { n with state := .initial }.enabledBy (n.matched? s r) := by
  rw [tryStart, if_pos h.2.2, matched?, if_pos h]
  unfold enableFromRegistry
  have hown : { n with state := .initial }.ownIdentity? r = n.ownIdentity? r := rfl
  rw [hown]
  cases n.ownIdentity? r with
  | none => rfl
  | some m => exact congrArg Prod.snd (enable_of_masternode (n := { n with state := .initial }) h.1 _ _)

theorem looks_of_matched {found : OutPoint × Endpoint} (h : n.matched? s r = some found) : n.Looks s := by
  unfold matched? at h
  split at h
  · assumption
  · cases h

/-- A poll that finds the node in the registry does what enabling it and polling it do. It only asks more. -/
theorem manageStatus_of_matched {found : OutPoint × Endpoint} (h : n.matched? s r = some found) :
    ∃ calls, n.manageStatus s r = { (n.enabledBy (some found)).manageStatus s r with calls := calls } := by
  have hlooks := looks_of_matched h
  have hstarted : (n.enabledBy (some found)).tryStart r = (n.enabledBy (some found), []) := tryStart_of_started rfl r
  obtain ⟨calls, hpoll⟩ : ∃ calls, n.pollSynced s r =
      { (n.enabledBy (some found)).pollSynced s r with calls := calls } := by
    unfold pollSynced
    dsimp only
    rw [tryStart_of_looks hlooks, h, hstarted]
    exact ⟨_, rfl⟩
  have hsettings : (n.enabledBy (some found)).settings = n.settings := rfl
  have hskips : (n.enabledBy (some found)).skipsSync = n.skipsSync := rfl
  unfold manageStatus
  rw [hpoll, hsettings, hskips]
  cases hskip : n.skipsSync with
  | true => exact ⟨calls, by simp [hlooks.1]⟩
  | false =>
    have hsync : s.synced = true := hlooks.2.1.resolve_left (by simp [hskip])
    exact ⟨.askSync :: calls, by simp [hlooks.1, hsync]⟩

/-- A ping leaves a node started only by leaving it as it is. -/
theorem sendPing_of_started (h : (n.sendPing s r).node.state = .started) : (n.sendPing s r).node = n := by
  have hcases := n.sendPing_cases s r
  generalize n.sendPing s r = t at h hcases
  cases hcases with
  | unregistered => cases h
  | idle | unsigned | overflow | early | relayed => rfl

theorem checkCapability_state (n : Node) (s : Surroundings) : ∃ o, (n.checkCapability s).1.state = .notCapable o := by
  unfold checkCapability
  split <;> exact ⟨_, rfl⟩

theorem pollSynced_of_started (h : (n.pollSynced s r).node.state = .started) :
    (n.pollSynced s r).node = (n.tryStart r).1 ∧ (n.tryStart r).1.state = .started := by
  unfold pollSynced at h ⊢
  dsimp only at h ⊢
  split at h
  · rename_i hstate
    rw [if_pos hstate]
    exact ⟨sendPing_of_started h, hstate⟩
  · obtain ⟨o, ho⟩ := checkCapability_state (n.tryStart r).1 s
    cases ho.symm.trans h

/-- A poll that does not find the node in the registry leaves it started only by leaving it as it is. -/
theorem manageStatus_of_unmatched (hnone : n.matched? s r = none) (h : (n.manageStatus s r).node.state = .started) :
    (n.manageStatus s r).node = n := by
  have polled : n.settings.masternode = true → n.skipsSync = true ∨ s.synced = true →
      (n.pollSynced s r).node.state = .started → (n.pollSynced s r).node = n := by
    intro hrole hsync h
    obtain ⟨hnode, hstarted⟩ := pollSynced_of_started h
    by_cases hwaits : n.state = .syncing ∨ n.state = .initial
    · rw [tryStart_of_looks ⟨hrole, hsync, hwaits⟩, hnone] at hstarted
      cases hstarted
    · rw [hnode, tryStart, if_neg hwaits]
  unfold manageStatus at h ⊢
  cases hrole : n.settings.masternode with
  | false => rfl
  | true =>
    cases hskip : n.skipsSync with
    | true =>
      simp only [hrole, hskip] at h
      exact polled hrole (.inl hskip) h
    | false =>
      cases hsync : s.synced with
      | true =>
        simp only [hrole, hskip, hsync] at h
        exact polled hrole (.inr hsync) h
      | false =>
        simp [hrole, hskip, hsync] at h

theorem manageStatus_of_started (h : (n.manageStatus s r).node.state = .started) :
    (n.manageStatus s r).node = n.enabledBy (n.matched? s r) := by
  cases hmatched : n.matched? s r with
  | none => exact manageStatus_of_unmatched hmatched h
  | some found =>
    have hnone : (n.enabledBy (some found)).matched? s r = none := if_neg fun hlooks => by simp [enabledBy, Looks] at hlooks
    obtain ⟨calls, hsame⟩ := manageStatus_of_matched hmatched
    rw [hsame] at h ⊢
    exact manageStatus_of_unmatched hnone h

theorem sendPing_ne_notRunning {collateral : OutPoint} (hstate : n.state = .started)
    (hcollateral : n.collateral = some collateral) (s : Surroundings) (r : Registry) :
    (n.sendPing s r).result ≠ .ok (.error .notRunning) := by
  have hrole : n.pingRole ≠ .error .notRunning := by
    unfold pingRole
    rw [hstate, hcollateral]
    cases n.key <;> simp
  have hcases := n.sendPing_cases s r
  generalize n.sendPing s r = t at hcases
  cases hcases with
  | idle role =>
    rintro ⟨⟩
    exact hrole role
  | unsigned | unregistered | overflow | early | relayed => rintro ⟨⟩

/-! ## Starting -/

theorem enable_eq (n : Node) (collateral : OutPoint) (service : Endpoint) :
    (n.enable collateral service).2 =
      n.enabledBy (if (n.enable collateral service).1 then some (collateral, service) else none) := by
  unfold enable
  split <;> rfl

/-- The entry is valid and has the node's key. -/
structure NamedBy (n : Node) (e : Entry) : Prop where
  valid : e.validate = .ok ()
  key : ∃ key, e.keyPair = .ok key ∧ n.publicKey? = some key.publicKey

theorem readEntry_eq_ok_iff {e : Entry} {target : OutPoint × Endpoint} :
    n.readEntry e = .ok target ↔ n.NamedBy e ∧ e.target? = some target := by
  unfold readEntry
  constructor
  · intro h
    obtain ⟨_, hvalid, h⟩ := bind_eq_ok_iff.1 h
    obtain ⟨key, hkey, h⟩ := bind_eq_ok_iff.1 h
    dsimp only at h
    split at h
    · cases h
    · rename_i hown
      obtain ⟨collateral, hcollateral, h⟩ := bind_eq_ok_iff.1 h
      obtain ⟨endpoint, hendpoint, h⟩ := bind_eq_ok_iff.1 h
      rw [Entry.target?, mapError_eq_ok_iff.1 hcollateral, mapError_eq_ok_iff.1 hendpoint]
      exact ⟨⟨mapError_eq_ok_iff.1 hvalid, key, hkey, Decidable.not_not.1 hown⟩, congrArg some (Except.ok.inj h)⟩
  · rintro ⟨⟨hvalid, key, hkey, hown⟩, htarget⟩
    refine bind_eq_ok_iff.2 ⟨(), mapError_eq_ok_iff.2 hvalid, bind_eq_ok_iff.2 ⟨key, hkey, ?_⟩⟩
    dsimp only
    rw [if_neg (Decidable.not_not.2 hown)]
    unfold Entry.target? at htarget
    split at htarget
    · rename_i collateral endpoint hcollateral hendpoint
      exact bind_eq_ok_iff.2 ⟨collateral, mapError_eq_ok_iff.2 hcollateral,
        bind_eq_ok_iff.2 ⟨endpoint, mapError_eq_ok_iff.2 hendpoint, congrArg Except.ok (Option.some.inj htarget)⟩⟩
    · cases htarget

theorem startFromEntry_eq (n : Node) (e : Entry) :
    (n.startFromEntry e).2 = n.enabledBy (e.enabling? (n.startFromEntry e).1) := by
  unfold startFromEntry
  split
  · rfl
  · rename_i collateral endpoint hread
    dsimp only
    rw [enable_eq]
    cases (n.enable collateral endpoint).1 with
    | false => rfl
    | true => rw [Entry.enabling?, (readEntry_eq_ok_iff.1 hread).2, if_pos rfl]

theorem startNamed_eq (n : Node) (c : Conf) (name : String) :
    (n.startNamed c name).2 =
      n.enabledBy ((c.get? name).bind fun e => e.enabling? (n.startNamed c name).1) := by
  unfold startNamed
  split
  · rename_i hnone
    rw [hnone]
    rfl
  · rename_i e hsome
    rw [hsome]
    exact startFromEntry_eq n e

/-! ## Operations -/

/-- An operation leaves a node started only as it was or as it enabled it. -/
theorem perform_of_started {o : Op} (h : (n.perform r o).node.state = .started) :
    (n.perform r o).node = n.enabledBy (n.enabling? r o) := by
  cases o with
  | manage s => exact manageStatus_of_started h
  | reset s =>
    have hnode : (n.perform r (.reset s)).node = { n with state := .initial }.enabledBy (n.enabling? r (.reset s)) :=
      manageStatus_of_started h
    rw [hnode] at h ⊢
    cases henabling : n.enabling? r (.reset s) with
    | none =>
      rw [henabling] at h
      cases h
    | some target => rfl
  | ping s => exact sendPing_of_started h
  | enable collateral service => exact enable_eq n collateral service
  | startFrom e => exact startFromEntry_eq n e
  | startNamed c name => exact startNamed_eq n c name

/-! ## A node without the masternode role -/

/-- The node lacks the masternode role, and nothing has moved it. -/
structure Inert (n : Node) : Prop where
  role : n.settings.masternode = false
  state : n.state = .initial

theorem inert_new {settings : Settings} (h : settings.masternode = false) (key : Option KeyPair) :
    (Node.new settings key).Inert := ⟨h, rfl⟩

namespace Inert

variable (h : n.Inert)

include h

theorem manageStatus (s : Surroundings) (r : Registry) : n.manageStatus s r = ⟨.ok (), n, r, []⟩ := by
  simp [Node.manageStatus, h.role]

theorem resetStatus (s : Surroundings) (r : Registry) : n.resetStatus s r = ⟨.ok (), n, r, []⟩ := by
  have hstate : { n with state := .initial } = n := h.state ▸ rfl
  rw [Node.resetStatus, hstate, h.manageStatus]

theorem sendPing (s : Surroundings) (r : Registry) : n.sendPing s r = ⟨.ok (.error .notRunning), n, r, []⟩ :=
  sendPing_of_not_started (by simp [h.state]) s r

theorem enable (collateral : OutPoint) (service : Endpoint) : n.enable collateral service = (false, n) := by
  simp [Node.enable, h.role]

theorem startFromEntry (e : Entry) : e.enabling? (n.startFromEntry e).1 = none := by
  unfold Node.startFromEntry
  split
  · rfl
  · rw [h.enable]
    rfl

theorem startNamed (c : Conf) (name : String) :
    ((c.get? name).bind fun e => e.enabling? (n.startNamed c name).1) = none := by
  unfold Node.startNamed
  cases c.get? name with
  | none => rfl
  | some e => exact h.startFromEntry e

theorem enabling? (r : Registry) (o : Op) : n.enabling? r o = none := by
  have hlooks : ∀ s : Surroundings, ∀ m : Node, m.settings = n.settings → ¬m.Looks s := by
    intro s m hm hl
    exact Bool.false_ne_true (h.role.symm.trans (hm ▸ hl.1))
  cases o with
  | manage s => exact if_neg (hlooks s n rfl)
  | reset s => exact if_neg (hlooks s { n with state := .initial } rfl)
  | ping s => rfl
  | enable collateral service => simp [Node.enabling?, h.enable]
  | startFrom e => exact h.startFromEntry e
  | startNamed c name => exact h.startNamed c name

/-- Whatever the node is asked to do, it consults nobody and stays as it is. -/
theorem perform (r : Registry) (o : Op) : n.perform r o = ⟨(), n, r, []⟩ := by
  cases o with
  | manage s => simp [Node.perform, h.manageStatus]
  | reset s => simp [Node.perform, h.resetStatus]
  | ping s => simp [Node.perform, h.sendPing]
  | enable collateral service => simp [Node.perform, h.enable]
  | startFrom e => simp [Node.perform, startFromEntry_eq, h.startFromEntry, enabledBy]
  | startNamed c name => simp [Node.perform, startNamed_eq, h.startNamed, enabledBy]

end Inert

end Node

/-! ## Runs of one node -/

/-- A node and its past. -/
structure History where
  node : Node
  /-- The collateral and the address that the node was enabled with last. -/
  enabling : Option (OutPoint × Endpoint)
  /-- What the node asked and told so far, in order. -/
  calls : List Call

namespace History

def start (settings : Settings) (key : Option KeyPair) : History := ⟨.new settings key, none, []⟩

/-- One operation, with the registry that it meets. -/
def step (t : History) (q : Registry × Op) : History :=
  let turn := t.node.perform q.1 q.2
  ⟨turn.node, (t.node.enabling? q.1 q.2).or t.enabling, t.calls ++ turn.calls⟩

def run (t : History) (qs : List (Registry × Op)) : History := qs.foldl step t

theorem run_induction {P : History → Prop} (step : ∀ t q, P t → P (t.step q)) {t : History} (h : P t)
    (qs : List (Registry × Op)) : P (t.run qs) := by
  induction qs generalizing t with
  | nil => exact h
  | cons q qs ih => exact ih (step t q h)

/-- A node that is started has the collateral and the address that it was enabled with last. -/
def Consistent (t : History) : Prop :=
  t.node.state = .started → ∃ collateral service, t.enabling = some (collateral, service) ∧
    t.node.collateral = some collateral ∧ t.node.service = some service

theorem Consistent.step {t : History} (h : t.Consistent) (q : Registry × Op) : (t.step q).Consistent := by
  intro hstate
  have hnode : (t.step q).node = t.node.enabledBy (t.node.enabling? q.1 q.2) := Node.perform_of_started hstate
  have hlast : (t.step q).enabling = (t.node.enabling? q.1 q.2).or t.enabling := rfl
  rw [hnode] at hstate ⊢
  rw [hlast]
  cases henabling : t.node.enabling? q.1 q.2 with
  | none =>
    rw [henabling] at hstate
    exact h hstate
  | some target => exact ⟨target.1, target.2, rfl, rfl, rfl⟩

theorem Consistent.run {t : History} (h : t.Consistent) (qs : List (Registry × Op)) : (t.run qs).Consistent :=
  run_induction (P := Consistent) (fun _ q h => h.step q) h qs

theorem step_of_inert {t : History} (h : t.node.Inert) (q : Registry × Op) : t.step q = t := by
  simp [step, h.perform, h.enabling?]

theorem run_of_inert {t : History} (h : t.node.Inert) (qs : List (Registry × Op)) : t.run qs = t :=
  run_induction (P := (· = t)) (fun _ q ht => ht.symm ▸ step_of_inert h q) rfl qs

end History

/-- However a node is run, and whatever its surroundings and the registry say each time: while it is started it
has the collateral and the address that it was enabled with last, and a ping never finds it not running. Without
the masternode role it stays as it was made, calls nobody, and answers the same whatever it would meet. -/
theorem started_as_enabled (settings : Settings) (key : Option KeyPair) (qs : List (Registry × Op)) :
    let t := (History.start settings key).run qs
    (t.node.state = .started →
      (∃ collateral service, t.enabling = some (collateral, service) ∧
        t.node.collateral = some collateral ∧ t.node.service = some service) ∧
      ∀ s r, (t.node.sendPing s r).result ≠ .ok (.error .notRunning)) ∧
    (settings.masternode = false →
      t.node = .new settings key ∧ t.calls = [] ∧
      ∀ s r, t.node.manageStatus s r = ⟨.ok (), t.node, r, []⟩ ∧ t.node.resetStatus s r = ⟨.ok (), t.node, r, []⟩ ∧
        t.node.sendPing s r = ⟨.ok (.error .notRunning), t.node, r, []⟩) := by
  intro t
  have hstart : (History.start settings key).Consistent := fun hstate => by cases hstate
  constructor
  · intro hstarted
    obtain ⟨collateral, service, henabling, hcollateral, hservice⟩ := hstart.run qs hstarted
    refine ⟨⟨collateral, service, henabling, hcollateral, hservice⟩, fun s r => ?_⟩
    exact Node.sendPing_ne_notRunning hstarted hcollateral s r
  · intro hrole
    have hinert := Node.inert_new hrole key
    have ht : t = .start settings key := History.run_of_inert hinert qs
    rw [ht]
    exact ⟨rfl, rfl, fun s r => ⟨hinert.manageStatus s r, hinert.resetStatus s r, hinert.sendPing s r⟩⟩

/-- A node is found in the registry, lost, and started again by its controller for another collateral. -/
theorem started_as_enabled_twice :
    let key : KeyPair := ⟨0⟩
    let m : Identity := ⟨⟨0, 1⟩, .v4 ⟨10, 0, 0, 1⟩ 53572, key.publicKey, 70920, true, none⟩
    let m' : Identity := ⟨⟨0, 2⟩, .v4 ⟨10, 0, 0, 2⟩ 53572, key.publicKey, 70920, true, none⟩
    let settings (masternode : Bool) : Settings := ⟨masternode, none, "", .mainnet, 70920⟩
    let meets (synced : Bool) : Surroundings := ⟨synced, none, fun _ => false, 1000, .ed25519⟩
    let qs : List (Registry × Op) := [(.empty, .manage (meets false)), (Registry.empty.insert m, .manage (meets true)),
      (.empty, .ping (meets true)), (.empty, .enable m'.collateral m'.endpoint),
      (Registry.empty.insert m', .manage (meets true))]
    let lost := (History.start (settings true) (some key)).run (qs.take 3)
    let t := (History.start (settings true) (some key)).run qs
    let idle := (History.start (settings false) none).run qs
    lost.node.state = .notCapable .notRegistered ∧ lost.enabling = some (m.collateral, m.endpoint) ∧
    t.node.state = .started ∧ t.enabling = some (m'.collateral, m'.endpoint) ∧
    t.node.collateral = some m'.collateral ∧ t.node.service = some m'.endpoint ∧
    (∀ s r, (t.node.sendPing s r).result ≠ .ok (.error .notRunning)) ∧
    idle.node = .new (settings false) none ∧ idle.calls = [] := by
  intro key m m' settings meets qs lost t idle
  have hlost : lost.node.state = .notCapable .notRegistered ∧ lost.enabling = some (m.collateral, m.endpoint) := by
    decide +kernel
  have hstarted : t.node.state = .started ∧ t.enabling = some (m'.collateral, m'.endpoint) := by decide +kernel
  obtain ⟨⟨collateral, service, henabling, hcollateral, hservice⟩, hping⟩ :=
    (started_as_enabled (settings true) (some key) qs).1 hstarted.1
  obtain ⟨hnode, hcalls, -⟩ := (started_as_enabled (settings false) none qs).2 rfl
  rw [hstarted.2] at henabling
  cases henabling
  exact ⟨hlost.1, hlost.2, hstarted.1, hstarted.2, hcollateral, hservice, hping, hnode, hcalls⟩

end AuditChain.Masternode
