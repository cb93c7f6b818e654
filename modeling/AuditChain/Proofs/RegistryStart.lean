import AuditChain.Proofs.Polls
import AuditChain.Proofs.RegistryKeys
/-!
# Which masternode of the registry starts a node

A key may belong to several masternodes of the registry. A poll takes the first of them, in whatever order the
registry lists them, and only then asks whether it is enabled and has the node's version. So the order decides
whether the node starts, unless all masternodes with its key would start it.
-/

namespace AuditChain.Masternode

/-! ## Starting from the registry -/

namespace Node

variable {n : Node} {s : Surroundings} {r r' : Registry} {key : KeyPair}

/-- What a node asks of the masternode that has its key. -/
def Accepts (n : Node) (m : Identity) : Prop := m.enabled = true ∧ m.protocolVersion = n.settings.protocolVersion

instance (n : Node) (m : Identity) : Decidable (n.Accepts m) := inferInstanceAs (Decidable (_ ∧ _))

/-- A started node stays as it is while the registry has its collateral. -/
theorem manageStatus_of_registered {c : OutPoint} {m : Identity} (hopen : n.Open s) (hstate : n.state = .started)
    (hcollateral : n.collateral = some c) (hm : r.findByCollateral c = some m) : (n.manageStatus s r).node = n := by
  have hsame : (n.tryStart r).1 = n := congrArg Prod.fst (tryStart_of_started hstate r)
  have hcases := n.manageStatus_cases s r
  generalize n.manageStatus s r = t at hcases
  cases hcases with
  | idle => rfl
  | waiting _ gate => exact absurd hopen gate
  | held _ _ start =>
    rw [hsame] at start
    exact absurd hstate start
  | running _ _ _ ping =>
    rw [hsame] at ping
    cases ping with
    | unregistered role _ found =>
      obtain ⟨-, hcollateral', -⟩ := pingRole_eq_ok_iff.1 role
      cases hcollateral.symm.trans hcollateral'
      cases hm.symm.trans found
    | idle | unsigned | overflow | early | relayed => rfl

/-- A poll enables a node with the masternode that it finds for it. -/
theorem manageStatus_of_own {m : Identity} (hr : r.Keyed) (hlooks : n.Looks s) (hown : n.ownIdentity? r = some m) :
    (n.manageStatus s r).node = (n.enable m.collateral m.endpoint).2 := by
  have hmatched : n.matched? s r = some (m.collateral, m.endpoint) := by
    rw [matched?, if_pos hlooks, hown]
    rfl
  obtain ⟨k, -, hfind, -⟩ := ownIdentity?_eq_some_iff.1 hown
  have hfound : r.findByCollateral m.collateral = some m :=
    hr.findByCollateral_self (Registry.findByKey_eq_some_iff.1 hfind).mem
  obtain ⟨calls, hsame⟩ := manageStatus_of_matched hmatched
  rw [hsame, enable_of_masternode hlooks.1]
  exact manageStatus_of_registered hlooks.2.1 rfl rfl hfound

theorem manageStatus_started_iff_own (hr : r.Keyed) (hlooks : n.Looks s) (hstate : n.state ≠ .started) :
    (n.manageStatus s r).node.state = .started ↔ ∃ m, n.ownIdentity? r = some m := by
  constructor
  · intro hstarted
    have hnode := manageStatus_of_started hstarted
    cases hown : n.ownIdentity? r with
    | some m => exact ⟨m, rfl⟩
    | none =>
      rw [matched?, if_pos hlooks, hown] at hnode
      rw [hnode] at hstarted
      exact absurd hstarted hstate
  · rintro ⟨m, hown⟩
    rw [manageStatus_of_own hr hlooks hown, enable_of_masternode hlooks.1]
    rfl

theorem ownIdentity?_eq_some_iff_first {m : Identity} (hkey : n.key = some key) :
    n.ownIdentity? r = some m ↔ r.IsFirst key.publicKey m ∧ n.Accepts m := by
  rw [ownIdentity?_eq_some_iff, hkey, ← Registry.findByKey_eq_some_iff]
  simp [Accepts]

theorem looks_of_initial (hstate : n.state = .initial) (hrole : n.settings.masternode = true) (hopen : n.Open s) :
    n.Looks s := ⟨hrole, hopen, .inr hstate⟩

theorem manageStatus_started_iff_first (hr : r.Keyed) (hstate : n.state = .initial)
    (hrole : n.settings.masternode = true) (hkey : n.key = some key) (hopen : n.Open s) :
    (n.manageStatus s r).node.state = .started ↔ ∃ m, r.IsFirst key.publicKey m ∧ n.Accepts m := by
  rw [manageStatus_started_iff_own hr (looks_of_initial hstate hrole hopen) (by simp [hstate])]
  exact exists_congr fun m => ownIdentity?_eq_some_iff_first hkey

end Node

/-! ## Main theorem -/

/-- A node at its beginning that has the masternode role and a key, and need not wait for the chain, is polled once.
Whatever the rest of the network made of the registry, and however the registry lists its masternodes: the node starts if
and only if the first of them with its key is enabled and has its version, and then with that one's collateral and
address. So it never starts without a masternode that has its key and qualifies. With one it starts in some order, and
in every order just if all masternodes with its key qualify. -/
theorem Node.manageStatus_by_first {n : Node} {s : Surroundings} {key : KeyPair} (hstate : n.state = .initial)
    (hrole : n.settings.masternode = true) (hkey : n.key = some key) (hopen : n.Open s)
    (changes : List Registry.Change) :
    let r := Registry.ofChanges changes
    let starts (r' : Registry) := (n.manageStatus s r').node.state = .started
    (∀ r', r.Reorders r' →
      (starts r' ↔ ∃ m, r'.IsFirst key.publicKey m ∧ n.Accepts m) ∧
      ∀ m, r'.IsFirst key.publicKey m → n.Accepts m →
        m ∈ r.masternodes.values ∧ (n.manageStatus s r').node = (n.enable m.collateral m.endpoint).2) ∧
    ((∃ r', r.Reorders r' ∧ starts r') ↔ ∃ m ∈ r.masternodes.values, m.key = key.publicKey ∧ n.Accepts m) ∧
    ((∀ r', r.Reorders r' → starts r') ↔
      (∃ m ∈ r.masternodes.values, m.key = key.publicKey) ∧
        ∀ m ∈ r.masternodes.values, m.key = key.publicKey → n.Accepts m) := by
  intro r starts
  have keyed : ∀ r', r.Reorders r' → r'.Keyed := fun r' hr' => (Registry.keyed_ofChanges changes).reorders hr'
  have hstarts : ∀ r', r.Reorders r' → (starts r' ↔ ∃ m, r'.IsFirst key.publicKey m ∧ n.Accepts m) :=
    fun r' hr' => manageStatus_started_iff_first (keyed r' hr') hstate hrole hkey hopen
  refine ⟨fun r' hr' => ⟨hstarts r' hr', fun m hfirst haccepts => ⟨hr'.mem_iff.1 hfirst.mem, ?_⟩⟩, ⟨?_, ?_⟩, ⟨?_, ?_⟩⟩
  · have hown : n.ownIdentity? r' = some m := (ownIdentity?_eq_some_iff_first hkey).2 ⟨hfirst, haccepts⟩
    exact manageStatus_of_own (keyed r' hr') (looks_of_initial hstate hrole hopen) hown
  · rintro ⟨r', hr', hstarted⟩
    obtain ⟨m, hfirst, haccepts⟩ := (hstarts r' hr').1 hstarted
    exact ⟨m, hr'.mem_iff.1 hfirst.mem, hfirst.key_eq, haccepts⟩
  · rintro ⟨m, hm, hown, haccepts⟩
    obtain ⟨r', hr', hfirst⟩ := Registry.exists_reorders_isFirst hm
    exact ⟨r', hr', (hstarts r' hr').2 ⟨m, hown ▸ hfirst, haccepts⟩⟩
  · intro hall
    obtain ⟨m, hfirst, -⟩ := (hstarts r (.refl r)).1 (hall r (.refl r))
    refine ⟨⟨m, hfirst.mem, hfirst.key_eq⟩, fun m hm hown => ?_⟩
    -- Each masternode with the key has its say in the order in which it is the first.
    obtain ⟨r', hr', hfirst⟩ := Registry.exists_reorders_isFirst hm
    obtain ⟨m', hfirst', haccepts⟩ := (hstarts r' hr').1 (hall r' hr')
    exact (hown ▸ hfirst).unique hfirst' ▸ haccepts
  · rintro ⟨⟨m, hm, hown⟩, haccepts⟩ r' hr'
    obtain ⟨first, hfirst⟩ := Registry.exists_isFirst (hr'.mem_iff.2 hm)
    rw [hown] at hfirst
    exact (hstarts r' hr').2 ⟨first, hfirst, haccepts first (hr'.mem_iff.1 hfirst.mem) hfirst.key_eq⟩

/-- Of the two masternodes with a key one is disabled. Once it is removed the order no longer matters. -/
theorem Node.manageStatus_by_first_two :
    let key : KeyPair := ⟨0⟩
    let identity (index : UInt32) (key : PublicKey) (enabled : Bool) : Identity :=
      ⟨⟨0, index⟩, .v4 ⟨10, 0, 0, 1⟩ 53572, key, 70920, enabled, none⟩
    let old := identity 1 key.publicKey false
    let new := identity 2 key.publicKey true
    let changes : List Registry.Change := [.insert old, .insert (identity 3 ⟨[1]⟩ true), .insert new]
    let both := Registry.ofChanges changes
    let one := Registry.ofChanges (changes ++ [.remove old.collateral])
    let n : Node := .new ⟨true, none, "", .mainnet, 70920⟩ (some key)
    let s : Surroundings := ⟨true, none, fun _ => false, 1000, .ed25519⟩
    n.state = .initial ∧ n.settings.masternode = true ∧ n.key = some key ∧ n.Open s ∧
    (∃ r', both.Reorders r' ∧ (n.manageStatus s r').node.state = .started) ∧
    (¬∀ r', both.Reorders r' → (n.manageStatus s r').node.state = .started) ∧
    (∀ r', one.Reorders r' → (n.manageStatus s r').node.state = .started) ∧
    (n.manageStatus s one).node = (n.enable new.collateral new.endpoint).2 := by
  intro key identity old new changes both one n s
  have hopen : n.Open s := .inr rfl
  have haccepts : n.Accepts new := ⟨rfl, rfl⟩
  obtain ⟨-, hsome, hevery⟩ := manageStatus_by_first (n := n) (s := s) rfl rfl rfl hopen changes
  obtain ⟨hfirst, -, hevery'⟩ :=
    manageStatus_by_first (n := n) (s := s) rfl rfl rfl hopen (changes ++ [.remove old.collateral])
  have hboth : old ∈ both.masternodes.values ∧ new ∈ both.masternodes.values := by decide +kernel
  have hone : one.IsFirst key.publicKey new := Registry.findByKey_eq_some_iff.1 (by decide +kernel)
  have haccepted : ∀ m ∈ one.masternodes.values, n.Accepts m := by decide +kernel
  refine ⟨rfl, rfl, rfl, hopen, hsome.2 ⟨new, hboth.2, rfl, haccepts⟩, fun hall => ?_,
    hevery'.2 ⟨⟨new, hone.mem, rfl⟩, fun m hm _ => haccepted m hm⟩, ((hfirst one (.refl one)).2 new hone haccepts).2⟩
  exact Bool.false_ne_true ((hevery.1 hall).2 old hboth.1 rfl).1

/-- A masternode that would start the node is in the registry, behind a disabled one with the same key. In the other
order it starts the node. -/
theorem Node.manageStatus_behind_disabled :
    let key : KeyPair := ⟨0⟩
    let identity (index : UInt32) (enabled : Bool) : Identity :=
      ⟨⟨0, index⟩, .v4 ⟨10, 0, 0, 1⟩ 53572, key.publicKey, 70920, enabled, none⟩
    let old := identity 1 false
    let new := identity 2 true
    let r := Registry.ofChanges [.insert old, .insert new]
    let r' := Registry.ofChanges [.insert new, .insert old]
    let n : Node := .new ⟨true, none, "", .mainnet, 70920⟩ (some key)
    let s : Surroundings := ⟨true, none, fun _ => false, 1000, .ed25519⟩
    n.state = .initial ∧ n.settings.masternode = true ∧ n.key = some key ∧ n.Open s ∧
    (∃ m ∈ r.masternodes.values, m.key = key.publicKey ∧ n.Accepts m) ∧
    (n.manageStatus s r).node.state = .notCapable .noAddress ∧ (n.manageStatus s r').node.state = .started := by
  intro key identity old new r r' n s
  exact ⟨rfl, rfl, rfl, .inr rfl, ⟨new, by decide +kernel, rfl, rfl, rfl⟩, by decide +kernel, by decide +kernel⟩

end AuditChain.Masternode
