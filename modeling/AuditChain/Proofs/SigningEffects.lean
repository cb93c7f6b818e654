import AuditChain.Proofs.Acceptance
/-!
# Signing changes the signature or nothing

There are three ways to sign a block, and each gives up at several places. `Signing` and `Storing` list all that they can
come to: a refusal leaves the block as it was, and a success puts a signature into it. The signature is no part of
what is signed, of what names the signer or of what the commitments cover, so nothing else of the block is disturbed.
-/

namespace AuditChain.Block

/-! ## Blocks that differ in their signature -/

/-- `b'` is `b` with another signature, or the same one, and whatever is asked of the block apart from it has the same
answer. -/
structure Resigned (b b' : Block) : Prop where
  fields : b' = { b with signature := b'.signature }
  kind : b'.kind = b.kind
  hash : b'.hash = b.hash
  recoverSigner : ∀ classify, b'.recoverSigner classify = b.recoverSigner classify
  checkLayout : b'.header.checkLayout = b.header.checkLayout
  checkStructure : b'.checkStructure = b.checkStructure
  checkMerkleRoot : b'.checkMerkleRoot = b.checkMerkleRoot
  checkAudit : b'.checkAudit = b.checkAudit

theorem resigned (b : Block) (signature : Bytes) : b.Resigned { b with signature := signature } :=
  ⟨rfl, rfl, rfl, fun _ => rfl, rfl, rfl, rfl, rfl⟩

theorem Encodable.resigned {b : Block} (h : b.Encodable) (hc : b.hasCoinstake = true) (signature : Bytes) :
    Encodable { b with signature := signature } := by
  refine ⟨h.layout, fun hnone => ?_, h.summaries⟩
  cases hc.symm.trans hnone

variable {signer : MessageSigner} {key : KeyPair} {classify : Script.Classifier} {store : KeyStore} {b : Block}
  {t : Except SignatureError Unit × Block}

/-! ## Signing with a key -/

/-- All that signing with a key can come to. -/
inductive Signing (signer : MessageSigner) (key : KeyPair) (b : Block) : Except SignatureError Unit × Block → Prop
  | inconsistent {fault} (layout : b.header.checkLayout = .error fault) : Signing signer key b (.error (.layout fault), b)
  | misplaced (layout : b.header.checkLayout = .ok ()) (kind : b.kind ≠ .work) (coinstake : b.hasCoinstake = false) :
      Signing signer key b (.error (.layout .signatureWithoutCoinstake), b)
  | failed {e} (layout : b.header.checkLayout = .ok ()) (place : b.kind = .work ∨ b.hasCoinstake = true)
      (sign : signer.sign b.hash key = .error e) : Signing signer key b (.error (.signing e), b)
  | signed {signature} (layout : b.header.checkLayout = .ok ()) (place : b.kind = .work ∨ b.hasCoinstake = true)
      (sign : signer.sign b.hash key = .ok signature) : Signing signer key b (.ok (), { b with signature := signature })

theorem signWith_cases (signer : MessageSigner) (key : KeyPair) (b : Block) :
    b.Signing signer key (b.signWith signer key) := by
  cases layout : b.header.checkLayout with
  | error fault =>
    rw [signWith_of_fault layout]
    exact .inconsistent layout
  | ok _ =>
    unfold signWith
    rw [layout]
    dsimp only
    split
    · rename_i hmisplaced
      obtain ⟨kind, coinstake⟩ : b.kind.requiresSignature = true ∧ b.hasCoinstake = false := by simpa using hmisplaced
      refine .misplaced layout (fun hwork => ?_) coinstake
      cases kind.symm.trans (Kind.requiresSignature_eq_false_iff.2 hwork)
    · rename_i hplaced
      have place : b.kind = .work ∨ b.hasCoinstake = true := by
        rw [← Kind.requiresSignature_eq_false_iff]
        cases hrequired : b.kind.requiresSignature <;> simp_all
      cases sign : signer.sign b.hash key with
      | ok signature => exact .signed layout place sign
      | error e => exact .failed layout place sign

namespace Signing

variable (h : b.Signing signer key t)

include h

theorem refused_or_resigned : (∃ e, t = (.error e, b)) ∨ (t.1 = .ok () ∧ b.Resigned t.2) := by
  cases h with
  | inconsistent | misplaced | failed => exact .inl ⟨_, rfl⟩
  | signed => exact .inr ⟨rfl, b.resigned _⟩

/-- A block that must be signed and has no coinstake has no place for a signature. -/
theorem refused (hk : b.kind ≠ .work) (hc : b.hasCoinstake = false) : ∃ fault, t = (.error (.layout fault), b) := by
  cases h with
  | inconsistent | misplaced => exact ⟨_, rfl⟩
  | failed _ place | signed _ place => simp [hk, hc] at place

theorem encodable (hk : b.kind ≠ .work) (hb : b.Encodable) (hok : t.1 = .ok ()) : t.2.Encodable := by
  cases h with
  | inconsistent | misplaced | failed => cases hok
  | signed _ place => exact hb.resigned (place.resolve_left hk) _

theorem sign_of_ok (hok : t.1 = .ok ()) : signer.sign t.2.hash key = .ok t.2.signature := by
  cases h with
  | inconsistent | misplaced | failed => cases hok
  | signed _ _ sign => exact sign

end Signing

/-! ## Signing from a store -/

/-- All that signing from a store can come to. -/
inductive Storing (classify : Script.Classifier) (store : KeyStore) (b : Block) :
    Except SignatureError Unit × Block → Prop
  | cleared (kind : b.kind = .work) : Storing classify store b (.ok (), { b with signature := [] })
  | unnamed {reason} (kind : b.kind ≠ .work) (named : b.signingId classify = .error reason) :
      Storing classify store b (.error (.keyNotFound reason), b)
  | missing {id} (kind : b.kind ≠ .work) (named : b.signingId classify = .ok id) (found : store id = none) :
      Storing classify store b (.error (.missingKey id), b)
  | keyed {id key t} (kind : b.kind ≠ .work) (named : b.signingId classify = .ok id) (found : store id = some key)
      (sign : b.Signing .ed25519 key t) : Storing classify store b t

theorem signFromStore_cases (classify : Script.Classifier) (store : KeyStore) (b : Block) :
    b.Storing classify store (b.signFromStore classify store) := by
  unfold signFromStore
  split
  · exact .cleared ‹_›
  rename_i kind
  cases named : b.signingId classify with
  | error reason => exact .unnamed kind named
  | ok id =>
    cases found : store id with
    | none =>
      simp only [found]
      exact .missing kind named found
    | some key =>
      simp only [found]
      exact .keyed kind named found (signWith_cases .ed25519 key b)

namespace Storing

variable (h : b.Storing classify store t)

include h

theorem refused_or_resigned : (∃ e, t = (.error e, b)) ∨ (t.1 = .ok () ∧ b.Resigned t.2) := by
  cases h with
  | cleared => exact .inr ⟨rfl, b.resigned _⟩
  | unnamed | missing => exact .inl ⟨_, rfl⟩
  | keyed _ _ _ sign => exact sign.refused_or_resigned

theorem refused (hk : b.kind ≠ .work) (hc : b.hasCoinstake = false) : ∃ e, t = (.error e, b) := by
  cases h with
  | cleared kind => exact absurd kind hk
  | unnamed | missing => exact ⟨_, rfl⟩
  | keyed _ _ _ sign =>
    obtain ⟨fault, hfault⟩ := sign.refused hk hc
    exact ⟨_, hfault⟩

theorem encodable (hk : b.kind ≠ .work) (hb : b.Encodable) (hok : t.1 = .ok ()) : t.2.Encodable := by
  cases h with
  | cleared kind => exact absurd kind hk
  | unnamed | missing => cases hok
  | keyed _ _ _ sign => exact sign.encodable hk hb hok

end Storing

/-! ## Main theorem -/

/-- Whatever the signer does, and whatever the store holds: signing refuses a block and leaves it as it was, or changes
its signature alone, so that its kind, its name, its signer and what its checks say of it stay the same. Signed with a
key, the block has the signature of the name that it still has. A block that must be signed is refused if it has no
coinstake, and if it had an encoding before it was signed, it has one afterwards. -/
theorem signing_changes_signature (signer : MessageSigner) (key : KeyPair) (classify : Script.Classifier)
    (store : KeyStore) (b : Block) :
    (∀ t ∈ [b.signWith signer key, b.sign key, b.signFromStore classify store],
      ((∃ e, t = (.error e, b)) ∨ (t.1 = .ok () ∧ b.Resigned t.2)) ∧
      (b.kind ≠ .work → ∀ bs, b.encode = .ok bs → t.1 = .ok () → ∃ bs', t.2.encode = .ok bs')) ∧
    ((b.signWith signer key).1 = .ok () →
      signer.sign (b.signWith signer key).2.hash key = .ok (b.signWith signer key).2.signature) ∧
    (b.kind ≠ .work → b.hasCoinstake = false →
      (∃ fault, b.signWith signer key = (.error (.layout fault), b)) ∧
      (∃ fault, b.sign key = (.error (.layout fault), b)) ∧
      ∃ e, b.signFromStore classify store = (.error e, b)) := by
  have hwith := b.signWith_cases signer key
  have hsign : b.Signing .ed25519 key (b.sign key) := b.signWith_cases .ed25519 key
  have hstore := b.signFromStore_cases classify store
  have hencode : ∀ t : Except SignatureError Unit × Block,
      (b.kind ≠ .work → b.Encodable → t.1 = .ok () → t.2.Encodable) →
      b.kind ≠ .work → ∀ bs, b.encode = .ok bs → t.1 = .ok () → ∃ bs', t.2.encode = .ok bs' := by
    intro t ht hk bs he hok
    obtain ⟨_, -, he'⟩ := (ht hk (encodable_of_encode he) hok).encode_eq
    exact ⟨_, he'⟩
  -- the three ways differ only in which list of outcomes they come from
  refine ⟨fun t ht => ?_, hwith.sign_of_ok, fun hk hc => ⟨hwith.refused hk hc, hsign.refused hk hc, hstore.refused hk hc⟩⟩
  simp only [List.mem_cons, List.not_mem_nil, or_false] at ht
  rcases ht with rfl | rfl | rfl
  · exact ⟨hwith.refused_or_resigned, hencode _ hwith.encodable⟩
  · exact ⟨hsign.refused_or_resigned, hencode _ hsign.encodable⟩
  · exact ⟨hstore.refused_or_resigned, hencode _ hstore.encodable⟩

/-- An audit block with a summary is signed from a store, and a signer that fails leaves it unsigned. Without its
coinstake it cannot be signed. -/
theorem signing_changes_signature_audit :
    let key : KeyPair := ⟨⟨List.replicate 32 1, rfl⟩⟩
    let stake : Transaction := ⟨1, [⟨⟨0, 1⟩, .empty, 0⟩], [⟨0, .empty⟩, ⟨5, .coldStake key.publicKey.id 0⟩], 0⟩
    let b : Block := ⟨⟨100, 0, 0, some ⟨0, 0, 0⟩, 1, 2, 3⟩, [.coinbase 9 [], stake], [], [⟨0, 4, 5⟩]⟩
    let bare : Block := { b with transactions := [.coinbase 9 []] }
    let signed := (b.signFromStore (.of true) (.ofKeys [key])).2
    b.kind ≠ .work ∧ (∃ bs, b.encode = .ok bs) ∧ signed.signature = key.sign b.hash.toList ∧ b.Resigned signed ∧
      (∃ bs, signed.encode = .ok bs) ∧
      b.signWith (.failing .invalidPrivateKey) key = (.error (.signing .invalidPrivateKey), b) ∧
      bare.kind ≠ .work ∧ bare.hasCoinstake = false ∧ ∃ fault, bare.sign key = (.error (.layout fault), bare) := by
  intro key stake b bare signed
  have hd : b.designated (.of true) = .ok (.coldStake key.publicKey.id 0) :=
    designated_eq_ok_iff.2 ⟨_, rfl, Script.Kind.of_coldStake _ _⟩
  have hstore : b.signFromStore (.of true) (.ofKeys [key]) = (.ok (), { b with signature := key.sign b.hash.toList }) :=
    (signFromStore_eq_ok_iff (by decide)).2 ⟨_, key, bind_eq_ok_iff.2 ⟨_, hd, rfl⟩, KeyStore.ofKeys_singleton key,
      sign_eq_ok_iff.2 ⟨rfl, fun _ => rfl, rfl⟩⟩
  obtain ⟨_, -, he⟩ := Encodable.encode_eq (b := b) ⟨rfl, nofun, nofun⟩
  obtain ⟨hall, -, -⟩ := signing_changes_signature (.failing .invalidPrivateKey) key (.of true) (.ofKeys [key]) b
  obtain ⟨hstored, hsent⟩ := hall (b.signFromStore (.of true) (.ofKeys [key])) (by simp)
  obtain ⟨-, -, hrefused⟩ := signing_changes_signature .ed25519 key (.of true) (.ofKeys [key]) bare
  obtain ⟨-, hbare, -⟩ := hrefused (by decide) rfl
  have hok : (b.signFromStore (.of true) (.ofKeys [key])).1 = .ok () := congrArg Prod.fst hstore
  have hresigned : b.Resigned signed := by
    rcases hstored with ⟨e, he'⟩ | ⟨-, hresigned⟩
    · cases hstore.symm.trans he'
    · exact hresigned
  exact ⟨by decide, ⟨_, he⟩, congrArg (fun t => t.2.signature) hstore, hresigned, hsent (by decide) _ he hok, rfl,
    by decide, rfl, hbare⟩

end AuditChain.Block
