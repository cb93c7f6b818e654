import AuditChain.Block.Signature
import AuditChain.Proofs.RoundTrip
import AuditChain.Proofs.SignerRecovery
/-!
# A signed block passes its check

Signing and checking look for the signer in different places: a wallet signs with the key that it
holds, or with the one in its store that the designated output names, and a check takes the key that
the block shows. They agree on blocks that were made for the key. A cold stake has two admissible
keys, of which a store looks for the staker's only.

Of ed25519 it is relied on that a key pair's signature verifies under its public key.
-/

namespace AuditChain

variable {classify : Script.Classifier} {b signed : Block}

theorem PublicKey.of_verify {key : PublicKey} {message signature : Bytes} (h : key.verify message signature = .ok ()) :
    key.isValid = true ∧ signature.length = signatureSize := by
  unfold PublicKey.verify at h
  split at h
  · cases h
  · cases h
  · rename_i point signed hp hs
    refine ⟨by rw [isValid, hp]; rfl, ?_⟩
    rw [FixedBytes.ofList?_eq_some_iff.1 hs, signed.length_toList]

theorem KeyPair.sign_ne_nil (key : KeyPair) (message : Bytes) : key.sign message ≠ [] := by
  intro h
  have hlen := (Ed25519.sign key.secret message).length_toList
  rw [show (Ed25519.sign key.secret message).toList = [] from h] at hlen
  cases hlen

namespace Block

/-! ## What signing does -/

theorem sign_eq_ok_iff {key : KeyPair} :
    b.sign key = (.ok (), signed) ↔
      b.header.checkLayout = .ok () ∧ (b.kind.requiresSignature = true → b.hasCoinstake = true) ∧
        signed = { b with signature := key.sign b.hash.toList } := by
  unfold sign signWith
  cases hl : b.header.checkLayout with
  | error fault => simp
  | ok _ =>
    simp only [MessageSigner.ed25519]
    cases b.kind.requiresSignature <;> cases b.hasCoinstake <;> simp [eq_comm]

theorem Kind.requiresSignature_of_ne {kind : Kind} (h : kind ≠ .work) : kind.requiresSignature = true := by
  cases kind with
  | work => exact absurd rfl h
  | stake | audit => rfl

theorem requiresSignature_of_hasCoinstake (h : b.hasCoinstake = true) : b.kind.requiresSignature = true := by
  unfold kind
  rw [h]
  cases b.header.isAudit <;> rfl

/-- The signature is no part of what names the signer or of what is signed. -/
theorem checkSignature_resigned {key : PublicKey} {signature : Bytes} (hl : b.header.checkLayout = .ok ())
    (hc : b.hasCoinstake = true) (hr : b.recoverSigner classify = .ok key) (hne : signature ≠ []) :
    checkSignature classify { b with signature := signature } =
      (key.verify b.hash.toList signature).mapError fun _ => .mismatch := by
  have hexpected : expectedSigner classify { b with signature := signature } = .ok (some key) := by
    have hk : kind { b with signature := signature } = b.kind := rfl
    have hc' : hasCoinstake { b with signature := signature } = true := hc
    have hr' : recoverSigner classify { b with signature := signature } = .ok key := hr
    simp [expectedSigner, hl, hk, requiresSignature_of_hasCoinstake hc, hne, hc', hr']
  have hh : hash { b with signature := signature } = b.hash := rfl
  simp only [checkSignature, hexpected, verifyWith, hh]
  cases key.verify b.hash.toList signature <;> rfl

theorem checkSignature_of_verify {key : PublicKey} {signature : Bytes} (hl : b.header.checkLayout = .ok ())
    (hc : b.hasCoinstake = true) (hr : b.recoverSigner classify = .ok key)
    (hv : key.verify b.hash.toList signature = .ok ()) :
    checkSignature classify { b with signature := signature } = .ok () := by
  have hne : signature ≠ [] := by
    rintro rfl
    cases (PublicKey.of_verify hv).2
  rw [checkSignature_resigned hl hc hr hne, hv]
  rfl

end Block

/-! ## Scripts made for a key -/

/-- Locking and unlocking scripts that a wallet makes for `key`. The signature in an unlocking script is
any string short enough for a push of one length byte. -/
inductive Script.MadeFor (key : PublicKey) : (lock unlock : Script) → Prop
  | payToKey (unlock : Script) : MadeFor key (.payToKey key) unlock
  | payToKeyId (signature : Bytes) : signature.length ≤ 75 → MadeFor key (.payToKeyId key.id) (.unlockKeyId signature key)
  | staker (owner : KeyId) (signature : Bytes) (flag : Bool) : signature.length ≤ 75 →
      MadeFor key (.coldStake key.id owner) (.unlockColdStake signature flag key)
  | owner (staker : KeyId) (signature : Bytes) (flag : Bool) : signature.length ≤ 75 →
      MadeFor key (.coldStake staker key.id) (.unlockColdStake signature flag key)
  | mint (proof : Bytes) : MadeFor key (.mint key) (.spendMint key proof)

namespace Block

variable {stake : Transaction} {input : TxIn} {output : TxOut}

theorem recoverSigner_of_madeFor {key : PublicKey} (hstake : b.coinstake? = some stake)
    (hin : stake.inputs.head? = some input) (hout : stake.outputs[1]? = some output)
    (hmade : Script.MadeFor key output.script input.scriptSig) (hvalid : key.isValid = true) :
    b.recoverSigner (.of true) = .ok key := by
  have hlen := PublicKey.length_of_isValid hvalid
  have hscript : b.stakeScript = .ok input.scriptSig := stakeScript_eq_ok_iff.2 ⟨stake, input, hstake, hin, rfl⟩
  have hdesignated : b.designated (.of true) = .ok (.of true output.script) := by
    refine designated_eq_ok_iff.2 ⟨output, ?_, rfl⟩
    rw [designatedOutput?, hstake]
    exact hout
  rw [recoverSigner_eq_ok_iff]
  generalize output.script = lock at hmade hdesignated
  generalize input.scriptSig = unlock at hmade hscript
  -- It is left to say which template the output is, and that the unlocking script shows the key for it.
  suffices h : ∃ kind, kind ≠ .nonStandard ∧ kind.template? = some lock ∧ b.namedKey kind = .ok key by
    obtain ⟨kind, hk, ht, hn⟩ := h
    exact ⟨kind, by rw [hdesignated, (Script.Kind.of_eq_iff hk).2 ⟨ht, fun _ => rfl⟩], hn, hvalid⟩
  cases hmade with
  | payToKey => exact ⟨.payToKey key, nofun, if_pos hlen, rfl⟩
  | payToKeyId signature hs =>
    exact ⟨.payToKeyId key.id, nofun, rfl, namedKey_payToKeyId_eq_ok_iff.2
      ⟨_, hscript, Script.keyAfterSignature_unlockKeyId hs hlen, rfl⟩⟩
  | staker owner signature flag hs =>
    exact ⟨.coldStake key.id owner, nofun, rfl, namedKey_coldStake_eq_ok_iff.2
      ⟨_, hscript, Script.keyAfterFlag_unlockColdStake flag hs hlen, .inl rfl⟩⟩
  | owner staker signature flag hs =>
    exact ⟨.coldStake staker key.id, nofun, rfl, namedKey_coldStake_eq_ok_iff.2
      ⟨_, hscript, Script.keyAfterFlag_unlockColdStake flag hs hlen, .inr rfl⟩⟩
  | mint proof =>
    exact ⟨.mint (hash256 key.bytes), nofun, rfl, namedKey_mint_eq_ok_iff.2
      ⟨_, hscript, Script.keyOfMint_spendMint proof hlen, rfl⟩⟩

/-! ## Signing with a key -/

/-- A block whose coinstake was made for a key names that key. Signed with it, the block passes the
check, and so it does after a journey over the wire if its size is within the limit. -/
theorem sign_then_check {key : KeyPair} (hl : b.header.checkLayout = .ok ()) (hstake : b.coinstake? = some stake)
    (hin : stake.inputs.head? = some input) (hout : stake.outputs[1]? = some output)
    (hmade : Script.MadeFor key.publicKey output.script input.scriptSig)
    (hverify : key.publicKey.verify b.hash.toList (key.sign b.hash.toList) = .ok ()) :
    b.recoverSigner (.of true) = .ok key.publicKey ∧
      ∃ signed, b.sign key = (.ok (), signed) ∧ signed.checkSignature (.of true) = .ok () ∧
        (signed.checkSize maxSizeCurrent = .ok () →
          ∃ bs received, signed.encode = .ok bs ∧ readAll read bs = .ok received ∧
            received.checkSignature (.of true) = .ok ()) := by
  have hr := recoverSigner_of_madeFor hstake hin hout hmade (PublicKey.of_verify hverify).1
  have hc : b.hasCoinstake = true := by
    rw [hasCoinstake, hstake]
    rfl
  have hcheck := checkSignature_of_verify hl hc hr hverify
  refine ⟨hr, _, sign_eq_ok_iff.2 ⟨hl, fun _ => hc, rfl⟩, hcheck, fun hsize => ?_⟩
  obtain ⟨bs, he, hread⟩ := readAll_of_checkSize hsize
  exact ⟨bs, _, he, hread, hcheck⟩

/-- An audit block with a cold stake that its owner unlocked. -/
theorem sign_then_check_owner :
    let key : KeyPair := ⟨⟨List.replicate 32 1, rfl⟩⟩
    let input : TxIn := ⟨⟨0, 1⟩, .unlockColdStake [7, 7] false key.publicKey, 0⟩
    let stake : Transaction := ⟨1, [input], [⟨0, .empty⟩, ⟨5, .coldStake 0 key.publicKey.id⟩], 0⟩
    let b : Block := ⟨⟨100, 0, 0, some ⟨0, 0, 0⟩, 1, 2, 3⟩, [.coinbase 9 [], stake], [], [⟨0, 4, 5⟩]⟩
    b.header.checkLayout = .ok () ∧ b.coinstake? = some stake ∧
      key.publicKey.verify b.hash.toList (key.sign b.hash.toList) = .ok () ∧
      b.recoverSigner (.of true) = .ok key.publicKey ∧
      ∃ signed, b.sign key = (.ok (), signed) ∧ signed.checkSignature (.of true) = .ok () ∧
        signed.checkSize maxSizeCurrent = .ok () ∧
        ∃ bs received, signed.encode = .ok bs ∧ readAll read bs = .ok received ∧
          received.checkSignature (.of true) = .ok () := by
  intro key input stake b
  have hl : b.header.checkLayout = .ok () := rfl
  have hstake : b.coinstake? = some stake := rfl
  have hmade : Script.MadeFor key.publicKey (.coldStake 0 key.publicKey.id) input.scriptSig :=
    .owner 0 [7, 7] false (by decide)
  have hverify : key.publicKey.verify b.hash.toList (key.sign b.hash.toList) = .ok () := by decide +kernel
  obtain ⟨hr, signed, hsign, hcheck, hwire⟩ := sign_then_check hl hstake rfl rfl hmade hverify
  have hsize : signed.checkSize maxSizeCurrent = .ok () := by
    obtain rfl : (b.sign key).2 = signed := congrArg Prod.snd hsign
    decide +kernel
  exact ⟨hl, hstake, hverify, hr, signed, hsign, hcheck, hsize, hwire hsize⟩

end Block

/-! ## Signing from a store -/

namespace KeyStore

/-- Each key pair is stored under the id of its public key. -/
def Keyed (store : KeyStore) : Prop :=
  ∀ id pair, store id = some pair → pair.publicKey.id = id

theorem eq_of_ofKeys_singleton {key pair : KeyPair} {id : KeyId} (h : ofKeys [key] id = some pair) : pair = key :=
  List.mem_singleton.1 (List.mem_of_find?_eq_some h)

theorem ofKeys_singleton (key : KeyPair) : ofKeys [key] key.publicKey.id = some key := by
  simp [ofKeys]

theorem keyed_ofKeys (keys : List KeyPair) : (ofKeys keys).Keyed := by
  intro id pair h
  simpa using List.find?_some h

end KeyStore

namespace Block

variable {store : KeyStore}

theorem signFromStore_eq_ok_iff (hk : b.kind ≠ .work) :
    b.signFromStore classify store = (.ok (), signed) ↔
      ∃ id pair, b.signingId classify = .ok id ∧ store id = some pair ∧ b.sign pair = (.ok (), signed) := by
  unfold signFromStore
  rw [if_neg hk]
  cases hid : b.signingId classify with
  | error reason => simp
  | ok id => cases hpair : store id <;> simp [hpair]

/-- A store is asked for the key that a check recovers, unless the owner of a cold stake unlocked it. -/
theorem signingId_eq {key : PublicKey} {id : KeyId} (hid : b.signingId classify = .ok id)
    (hr : b.recoverSigner classify = .ok key)
    (hstaker : ∀ staker owner, b.designated classify = .ok (.coldStake staker owner) → key.id = staker) : id = key.id := by
  obtain ⟨kind, hd, hn, -⟩ := recoverSigner_eq_ok_iff.1 hr
  obtain ⟨kind', hd', hid⟩ := bind_eq_ok_iff.1 hid
  obtain rfl : kind = kind' := Except.ok.inj (hd.symm.trans hd')
  cases kind with
  | payToKey found =>
    obtain rfl : found = key := Except.ok.inj hn
    exact (Except.ok.inj hid).symm
  | payToKeyId committed =>
    obtain ⟨-, -, -, rfl⟩ := namedKey_payToKeyId_eq_ok_iff.1 hn
    exact (Except.ok.inj hid).symm
  | coldStake staker owner => exact (Except.ok.inj hid).symm.trans (hstaker staker owner hd).symm
  | mint serial => cases hid
  | nonStandard => cases hid

/-- A block that was signed from a store passes the check if it names a signer, unless that signer and
the key of the store are two keys of one id. A cold stake must be unlocked by its staker: it is the
staker whose key is looked up. -/
theorem signFromStore_checks {key : PublicKey} (hk : b.kind ≠ .work) (hkeyed : store.Keyed)
    (hverify : ∀ id pair, store id = some pair →
      pair.publicKey.verify b.hash.toList (pair.sign b.hash.toList) = .ok ())
    (hsign : b.signFromStore classify store = (.ok (), signed)) (hr : b.recoverSigner classify = .ok key)
    (hstaker : ∀ staker owner, b.designated classify = .ok (.coldStake staker owner) → key.id = staker) :
    signed.checkSignature classify = .ok () ∨
      ∃ pair, store key.id = some pair ∧ pair.publicKey.id = key.id ∧ pair.publicKey ≠ key := by
  obtain ⟨id, pair, hid, hpair, hs⟩ := (signFromStore_eq_ok_iff hk).1 hsign
  obtain rfl := signingId_eq hid hr hstaker
  by_cases hkey : pair.publicKey = key
  · left
    obtain ⟨hl, hc, rfl⟩ := sign_eq_ok_iff.1 hs
    exact checkSignature_of_verify hl (hc (Kind.requiresSignature_of_ne hk)) hr (hkey ▸ hverify _ pair hpair)
  · exact .inr ⟨pair, hpair, hkeyed _ pair hpair, hkey⟩

/-- A cold stake that its staker unlocked. -/
theorem signFromStore_checks_staker :
    let key : KeyPair := ⟨⟨List.replicate 32 1, rfl⟩⟩
    let store : KeyStore := .ofKeys [key]
    let input : TxIn := ⟨⟨0, 1⟩, .unlockColdStake [7, 7] true key.publicKey, 0⟩
    let stake : Transaction := ⟨1, [input], [⟨0, .empty⟩, ⟨5, .coldStake key.publicKey.id 0⟩], 0⟩
    let b : Block := ⟨default, [.coinbase 9 [], stake], [], []⟩
    let signed : Block := { b with signature := key.sign b.hash.toList }
    b.kind ≠ .work ∧ store.Keyed ∧
      (∀ id pair, store id = some pair → pair.publicKey.verify b.hash.toList (pair.sign b.hash.toList) = .ok ()) ∧
      b.signFromStore (.of true) store = (.ok (), signed) ∧ b.recoverSigner (.of true) = .ok key.publicKey ∧
      (∀ staker owner, b.designated (.of true) = .ok (.coldStake staker owner) → key.publicKey.id = staker) ∧
      (signed.checkSignature (.of true) = .ok () ∨
        ∃ pair, store key.publicKey.id = some pair ∧ pair.publicKey.id = key.publicKey.id ∧
          pair.publicKey ≠ key.publicKey) := by
  intro key store input stake b signed
  have hk : b.kind ≠ .work := by decide
  have hkeyed : store.Keyed := KeyStore.keyed_ofKeys [key]
  have hverify : ∀ id pair, store id = some pair →
      pair.publicKey.verify b.hash.toList (pair.sign b.hash.toList) = .ok () := by
    intro id pair h
    obtain rfl := KeyStore.eq_of_ofKeys_singleton h
    decide +kernel
  have hd : b.designated (.of true) = .ok (.coldStake key.publicKey.id 0) :=
    designated_eq_ok_iff.2 ⟨_, rfl, Script.Kind.of_coldStake _ _⟩
  have hsign : b.signFromStore (.of true) store = (.ok (), signed) :=
    (signFromStore_eq_ok_iff hk).2 ⟨_, key, bind_eq_ok_iff.2 ⟨_, hd, rfl⟩, KeyStore.ofKeys_singleton key,
      sign_eq_ok_iff.2 ⟨rfl, fun _ => rfl, rfl⟩⟩
  have hr : b.recoverSigner (.of true) = .ok key.publicKey :=
    recoverSigner_of_madeFor rfl rfl rfl (.staker 0 [7, 7] true (by decide)) (by decide +kernel)
  have hstaker : ∀ staker owner, b.designated (.of true) = .ok (.coldStake staker owner) →
      key.publicKey.id = staker := by
    intro staker owner h
    rw [hd, Except.ok.injEq, Script.Kind.coldStake.injEq] at h
    exact h.1
  exact ⟨hk, hkeyed, hverify, hsign, hr, hstaker, signFromStore_checks hk hkeyed hverify hsign hr hstaker⟩

/-- A cold stake that its owner unlocked: the store signs with the staker's key, and the check asks for the
owner's. -/
theorem signFromStore_owner_mismatch :
    let staker : KeyPair := ⟨⟨List.replicate 32 1, rfl⟩⟩
    let owner : PublicKey := ⟨List.replicate 32 9⟩
    let store : KeyStore := .ofKeys [staker]
    let input : TxIn := ⟨⟨0, 1⟩, .unlockColdStake [7, 7] false owner, 0⟩
    let stake : Transaction := ⟨1, [input], [⟨0, .empty⟩, ⟨5, .coldStake staker.publicKey.id owner.id⟩], 0⟩
    let b : Block := ⟨default, [.coinbase 9 [], stake], [], []⟩
    let signed : Block := { b with signature := staker.sign b.hash.toList }
    b.kind = .stake ∧ store.Keyed ∧
      (∀ id pair, store id = some pair → pair.publicKey.verify b.hash.toList (pair.sign b.hash.toList) = .ok ()) ∧
      b.signFromStore (.of true) store = (.ok (), signed) ∧ b.recoverSigner (.of true) = .ok owner ∧
      signed.checkSignature (.of true) = .error .mismatch ∧ staker.publicKey.id ≠ owner.id := by
  intro staker owner store input stake b signed
  have hverify : ∀ id pair, store id = some pair →
      pair.publicKey.verify b.hash.toList (pair.sign b.hash.toList) = .ok () := by
    intro id pair h
    obtain rfl := KeyStore.eq_of_ofKeys_singleton h
    decide +kernel
  have hd : b.designated (.of true) = .ok (.coldStake staker.publicKey.id owner.id) :=
    designated_eq_ok_iff.2 ⟨_, rfl, Script.Kind.of_coldStake _ _⟩
  have hsign : b.signFromStore (.of true) store = (.ok (), signed) :=
    (signFromStore_eq_ok_iff (by decide)).2 ⟨_, staker, bind_eq_ok_iff.2 ⟨_, hd, rfl⟩, KeyStore.ofKeys_singleton staker,
      sign_eq_ok_iff.2 ⟨rfl, fun _ => rfl, rfl⟩⟩
  have hr : b.recoverSigner (.of true) = .ok owner :=
    recoverSigner_of_madeFor rfl rfl rfl (.owner _ [7, 7] false (by decide)) (by decide +kernel)
  have hrefused : owner.verify b.hash.toList signed.signature = .error .invalidSignature := by decide +kernel
  have hcheck : signed.checkSignature (.of true) = .error .mismatch := by
    rw [checkSignature_resigned rfl rfl hr (KeyPair.sign_ne_nil staker _), hrefused]
    rfl
  exact ⟨rfl, KeyStore.keyed_ofKeys [staker], hverify, hsign, hr, hcheck, by decide +kernel⟩

end Block

end AuditChain
