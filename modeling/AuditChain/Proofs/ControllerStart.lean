import AuditChain.Proofs.ConfFile
import AuditChain.Proofs.StartedNode
/-!
# Which entries of its controller start a node

An entry is read step by step, and the node is only touched after the last step. Once an entry is valid and has the
node's key nothing is left that can fail, so which entries start a node is known without their collaterals and
addresses.
-/

namespace AuditChain

/-- A secret is read back from what is written of it. -/
theorem KeyPair.ofSecretHex_secretHex (key : KeyPair) : ofSecretHex key.secretHex = .ok key := by
  have hread : FixedBytes.ofHex? 32 key.secretHex = some key.secret := FixedBytes.ofHex?_toHex key.secret
  obtain ⟨-, hword⟩ := FixedBytes.isWord_of_ofHex? (by decide) hread
  have htrim : Text.trim key.secretHex.toList = key.secretHex.toList :=
    Text.trim_eq_self (fun c hc => hword c (List.mem_of_mem_head? hc)) fun c hc => hword c (List.mem_of_getLast? hc)
  rw [ofSecretHex, htrim, String.ofList_toList, hread]

namespace Masternode

open Net (Endpoint)

/-! ## What an entry says -/

namespace Entry

variable {e : Entry}

theorem target?_eq_some {txid : Hash256} {endpoint : Endpoint} (htxid : FixedBytes.ofHex? 32 e.txid = some txid)
    (hendpoint : Endpoint.ofText? e.address = some endpoint) : e.target? = some (⟨txid, e.index⟩, endpoint) := by
  unfold target? collateral Entry.endpoint
  rw [htxid, hendpoint]

theorem exists_target_of_validate (h : e.validate = .ok ()) :
    ∃ txid endpoint, FixedBytes.ofHex? 32 e.txid = some txid ∧ Endpoint.ofText? e.address = some endpoint ∧
      e.target? = some (⟨txid, e.index⟩, endpoint) := by
  obtain ⟨-, ⟨endpoint, hendpoint⟩, -, txid, htxid⟩ := validate_eq_ok_iff.1 h
  exact ⟨txid, endpoint, htxid, hendpoint, target?_eq_some htxid hendpoint⟩

theorem keyPair_of_secretHex {key : KeyPair} (h : e.privkey = key.secretHex) : e.keyPair = .ok key :=
  mapError_eq_ok_iff.2 (h ▸ key.ofSecretHex_secretHex)

end Entry

/-! ## Starting from an entry -/

namespace Node

variable {n : Node} {e : Entry} {collateral : OutPoint} {endpoint : Endpoint}

theorem fst_enable (n : Node) (collateral : OutPoint) (endpoint : Endpoint) :
    (n.enable collateral endpoint).1 = n.settings.masternode := by
  unfold enable
  cases n.settings.masternode <;> rfl

/-- Once an entry names the node, nothing that is left can fail. -/
theorem NamedBy.startFromEntry (h : n.NamedBy e) (htarget : e.target? = some (collateral, endpoint)) :
    n.startFromEntry e = (.ok n.settings.masternode, (n.enable collateral endpoint).2) := by
  rw [Node.startFromEntry, readEntry_eq_ok_iff.2 ⟨h, htarget⟩, ← fst_enable n collateral endpoint]

theorem startFromEntry_eq_ok_iff {started : Bool} :
    (n.startFromEntry e).1 = .ok started ↔ started = n.settings.masternode ∧ n.NamedBy e := by
  constructor
  · intro h
    cases hread : n.readEntry e with
    | error error =>
      rw [startFromEntry, hread] at h
      cases h
    | ok target =>
      obtain ⟨hnamed, htarget⟩ := readEntry_eq_ok_iff.1 hread
      rw [hnamed.startFromEntry htarget] at h
      exact ⟨(Except.ok.inj h).symm, hnamed⟩
  · rintro ⟨rfl, hnamed⟩
    obtain ⟨txid, endpoint, -, -, htarget⟩ := Entry.exists_target_of_validate hnamed.valid
    rw [hnamed.startFromEntry htarget]

/-- Only an entry that starts the node changes it. -/
theorem startFromEntry_of_not_started (h : (n.startFromEntry e).1 ≠ .ok true) : (n.startFromEntry e).2 = n := by
  have hnone : e.enabling? (n.startFromEntry e).1 = none := by
    unfold Entry.enabling?
    split
    · exact absurd ‹_› h
    · rfl
  rw [startFromEntry_eq, hnone]
  rfl

theorem startNamed_of_error {c : Conf} {name : String} {error : ConfigError}
    (h : (n.startNamed c name).1 = .error error) : (n.startNamed c name).2 = n := by
  unfold startNamed at h ⊢
  split
  · rfl
  · rename_i e hget
    rw [hget] at h
    exact startFromEntry_of_not_started (by simp [h])

theorem startFromEntry_of_true (h : (n.startFromEntry e).1 = .ok true) :
    ∃ txid endpoint, FixedBytes.ofHex? 32 e.txid = some txid ∧ Endpoint.ofText? e.address = some endpoint ∧
      (n.startFromEntry e).2 =
        { n with state := .started, collateral := some ⟨txid, e.index⟩, service := some endpoint } := by
  obtain ⟨-, hnamed⟩ := startFromEntry_eq_ok_iff.1 h
  obtain ⟨txid, endpoint, htxid, hendpoint, htarget⟩ := Entry.exists_target_of_validate hnamed.valid
  refine ⟨txid, endpoint, htxid, hendpoint, ?_⟩
  rw [startFromEntry_eq, h, Entry.enabling?, htarget]
  rfl

/-- An entry made of the texts of an address, of the node's key and of a transaction id names the node. -/
theorem namedBy_of_texts {name : String} {key : KeyPair} {txid : Hash256} (index : UInt32) (hkey : n.key = some key)
    (hname : name ≠ "") (hblank : Entry.hasBlank name = false) (haddr : Endpoint.ofText? endpoint.toText = some endpoint) :
    n.NamedBy ⟨name, endpoint.toText, key.secretHex, txid.toHex, index⟩ where
  valid := by
    have hsecret : key.secretHex ≠ "" := by
      intro hempty
      have hread := key.ofSecretHex_secretHex
      rw [hempty] at hread
      cases hread
    exact Entry.validate_eq_ok_iff.2
      ⟨⟨hname, hblank⟩, ⟨endpoint, haddr⟩, hsecret, txid, FixedBytes.ofHex?_toHex txid⟩
  key := ⟨key, Entry.keyPair_of_secretHex rfl, congrArg (Option.map KeyPair.publicKey) hkey⟩

end Node

/-! ## Main theorem -/

/-- Whatever the texts of an entry, or of all entries of a list, an error leaves the node as it was. An entry starts the
node just if the node has the masternode role and the entry is valid and has the node's key. Then the node is started
at the collateral and the address that the entry reads as, and is otherwise the same. It is told that it was not started
only if it lacks the role, and then nothing changes. An entry with the texts of an address, of the node's key and of a
transaction id, under any name that is one word, starts a node with the role at these. -/
theorem Node.startFromEntry_exact (n : Node) :
    (∀ e error, (n.startFromEntry e).1 = .error error → (n.startFromEntry e).2 = n) ∧
    (∀ c name error, (n.startNamed c name).1 = .error error → (n.startNamed c name).2 = n) ∧
    (∀ e, (n.startFromEntry e).1 = .ok true ↔
      n.settings.masternode = true ∧ e.validate = .ok () ∧
        ∃ key, e.keyPair = .ok key ∧ n.publicKey? = some key.publicKey) ∧
    (∀ e, (n.startFromEntry e).1 = .ok true →
      ∃ txid endpoint, FixedBytes.ofHex? 32 e.txid = some txid ∧ Endpoint.ofText? e.address = some endpoint ∧
        (n.startFromEntry e).2 =
          { n with state := .started, collateral := some ⟨txid, e.index⟩, service := some endpoint }) ∧
    (∀ e, (n.startFromEntry e).1 = .ok false → n.settings.masternode = false ∧ (n.startFromEntry e).2 = n) ∧
    (∀ name addr key txid index, n.settings.masternode = true → n.key = some key → name ≠ "" →
      Entry.hasBlank name = false → Endpoint.ofText? addr.toText = some addr →
      n.startFromEntry ⟨name, addr.toText, key.secretHex, FixedBytes.toHex txid, index⟩ =
        (.ok true, { n with state := .started, collateral := some ⟨txid, index⟩, service := some addr })) := by
  refine ⟨fun e error h => startFromEntry_of_not_started (by simp [h]), fun c name error => startNamed_of_error,
    fun e => ⟨fun h => ?_, ?_⟩, fun e => startFromEntry_of_true,
    fun e h => ⟨?_, startFromEntry_of_not_started (by simp [h])⟩, ?_⟩
  · obtain ⟨hrole, hvalid, hkey⟩ := startFromEntry_eq_ok_iff.1 h
    exact ⟨hrole.symm, hvalid, hkey⟩
  · rintro ⟨hrole, hvalid, hkey⟩
    exact startFromEntry_eq_ok_iff.2 ⟨hrole.symm, hvalid, hkey⟩
  · exact (startFromEntry_eq_ok_iff.1 h).1.symm
  · intro name addr key txid index hrole hkey hname hblank haddr
    have hnamed : n.NamedBy ⟨name, addr.toText, key.secretHex, FixedBytes.toHex txid, index⟩ :=
      namedBy_of_texts index hkey hname hblank haddr
    have htarget := Entry.target?_eq_some (e := ⟨name, addr.toText, key.secretHex, FixedBytes.toHex txid, index⟩)
      (FixedBytes.ofHex?_toHex txid) haddr
    rw [hnamed.startFromEntry htarget, hrole, enable_of_masternode hrole]
    rfl

/-- An entry that starts the node, one whose transaction id is too short, and a node that lacks the role. -/
theorem Node.startFromEntry_exact_scoped :
    let key : KeyPair := ⟨0⟩
    let txid : Hash256 := 0
    let addr : Endpoint := .v6 ⟨[0xfe80, 0, 0, 0, 0, 0, 0, 1], rfl⟩ 3 53572
    let node (masternode : Bool) : Node := .new ⟨masternode, none, "", .mainnet, 70920⟩ (some key)
    let n := node true
    let idle := node false
    let e : Entry := ⟨"mn1", addr.toText, key.secretHex, txid.toHex, 7⟩
    let short : Entry := { e with txid := "00" }
    n.settings.masternode = true ∧ n.key = some key ∧ e.name ≠ "" ∧ Entry.hasBlank e.name = false ∧
    Endpoint.ofText? addr.toText = some addr ∧
    n.startFromEntry e = (.ok true, { n with state := .started, collateral := some ⟨txid, 7⟩, service := some addr }) ∧
    (e.validate = .ok () ∧ ∃ key, e.keyPair = .ok key ∧ n.publicKey? = some key.publicKey) ∧
    (n.startFromEntry short).1 = .error (.entry (.txid "00")) ∧ (n.startFromEntry short).2 = n ∧
    (n.startNamed ⟨[short]⟩ "mn1").1 = .error (.entry (.txid "00")) ∧ (n.startNamed ⟨[short]⟩ "mn1").2 = n ∧
    (idle.startFromEntry e).1 = .ok false ∧ idle.settings.masternode = false ∧ (idle.startFromEntry e).2 = idle := by
  intro key txid addr node n idle e short
  have hname : e.name ≠ "" := by decide
  have hblank : Entry.hasBlank e.name = false := by decide
  have haddr : Endpoint.ofText? addr.toText = some addr := by decide +kernel
  obtain ⟨herror, hnamed, hiff, -, -, htexts⟩ := n.startFromEntry_exact
  have hstarts := htexts "mn1" addr key txid 7 rfl rfl hname hblank haddr
  have hshort : (n.startFromEntry short).1 = .error (.entry (.txid "00")) := by decide +kernel
  have hidle : (idle.startFromEntry e).1 = .ok false :=
    startFromEntry_eq_ok_iff.2 ⟨rfl, namedBy_of_texts 7 rfl hname hblank haddr⟩
  have hfalse := idle.startFromEntry_exact.2.2.2.2.1 e hidle
  exact ⟨rfl, rfl, hname, hblank, haddr, hstarts, ((hiff e).1 (congrArg Prod.fst hstarts)).2, hshort,
    herror short _ hshort, hshort, hnamed ⟨[short]⟩ "mn1" _ hshort, hidle, hfalse⟩

end Masternode

end AuditChain
