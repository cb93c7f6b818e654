import AuditChain.Proofs.BlockIdentity
import AuditChain.Proofs.Signing
/-!
# What a verdict says of a block

Whether the parts of a block fit its kind is settled before any cryptography. So an inconsistent header is
refused by every check and by signing with a key, though not always by signing from a store, and a
block that is accepted has an encoding that reads as the block.
-/

namespace AuditChain.Block

variable {classify : Script.Classifier} {b : Block}

/-- All that the checks before the cryptographic one can find, in their order. -/
inductive Expects (classify : Script.Classifier) (b : Block) : Except SignatureError (Option PublicKey) → Prop
  | inconsistent {fault} (layout : b.header.checkLayout = .error fault) : Expects classify b (.error (.layout fault))
  | surplus (layout : b.header.checkLayout = .ok ()) (kind : b.kind = .work) (signature : b.signature ≠ []) :
      Expects classify b (.error (.unexpectedSignature b.signature.length))
  | unsigned (layout : b.header.checkLayout = .ok ()) (kind : b.kind = .work) (signature : b.signature = []) :
      Expects classify b (.ok none)
  | empty (layout : b.header.checkLayout = .ok ()) (kind : b.kind ≠ .work) (signature : b.signature = []) :
      Expects classify b (.error (.emptySignature b.kind))
  | misplaced (layout : b.header.checkLayout = .ok ()) (kind : b.kind ≠ .work) (signature : b.signature ≠ [])
      (coinstake : b.hasCoinstake = false) : Expects classify b (.error (.layout .signatureWithoutCoinstake))
  | unnamed {reason} (layout : b.header.checkLayout = .ok ()) (kind : b.kind ≠ .work) (signature : b.signature ≠ [])
      (coinstake : b.hasCoinstake = true) (signer : b.recoverSigner classify = .error reason) :
      Expects classify b (.error (.keyNotFound reason))
  | named {key} (layout : b.header.checkLayout = .ok ()) (kind : b.kind ≠ .work) (signature : b.signature ≠ [])
      (coinstake : b.hasCoinstake = true) (signer : b.recoverSigner classify = .ok key) :
      Expects classify b (.ok (some key))

theorem Kind.requiresSignature_eq_false_iff {kind : Kind} : kind.requiresSignature = false ↔ kind = .work := by
  cases kind <;> simp [requiresSignature]

theorem expectedSigner_cases (classify : Script.Classifier) (b : Block) : b.Expects classify (b.expectedSigner classify) := by
  unfold expectedSigner
  cases layout : b.header.checkLayout with
  | error fault => exact .inconsistent layout
  | ok _ =>
    by_cases kind : b.kind = .work
    · rw [Kind.requiresSignature_eq_false_iff.2 kind]
      by_cases signature : b.signature = []
      · simpa [signature] using Expects.unsigned layout kind signature
      · simpa [signature] using Expects.surplus layout kind signature
    · rw [Kind.requiresSignature_of_ne kind]
      by_cases signature : b.signature = []
      · simpa [signature] using Expects.empty layout kind signature
      · cases coinstake : b.hasCoinstake with
        | false => simpa [signature] using Expects.misplaced layout kind signature coinstake
        | true =>
          cases signer : b.recoverSigner classify with
          | error reason => simpa [signature] using Expects.unnamed layout kind signature coinstake signer
          | ok key => simpa [signature] using Expects.named layout kind signature coinstake signer

/-! ## Inconsistent headers -/

theorem expectedSigner_of_fault {fault : LayoutFault} (h : b.header.checkLayout = .error fault) :
    b.expectedSigner classify = .error (.layout fault) := by
  have he := b.expectedSigner_cases classify
  generalize b.expectedSigner classify = found at he
  cases he with
  | inconsistent layout => rw [Except.error.inj (h.symm.trans layout)]
  | surplus layout | unsigned layout | empty layout | misplaced layout | unnamed layout | named layout =>
    cases h.symm.trans layout

theorem verify_of_fault {fault : LayoutFault} (h : b.header.checkLayout = .error fault) (cache : Option SignatureCache) :
    b.verify classify cache = (.error (.layout fault), cache) := by
  unfold verify checkSignature checkSignatureCached
  rw [expectedSigner_of_fault h]
  cases cache <;> rfl

theorem signWith_of_fault {fault : LayoutFault} (h : b.header.checkLayout = .error fault) (signer : MessageSigner)
    (key : KeyPair) : b.signWith signer key = (.error (.layout fault), b) := by
  unfold signWith
  rw [h]

/-- A store comes to the fault only after it has found the key. -/
theorem signFromStore_of_fault {fault : LayoutFault} (h : b.header.checkLayout = .error fault) (hk : b.kind ≠ .work)
    (store : KeyStore) :
    ∃ e, b.signFromStore classify store = (.error e, b) ∧
      (e = .layout fault ↔ ∃ id pair, b.signingId classify = .ok id ∧ store id = some pair) := by
  unfold signFromStore
  rw [if_neg hk]
  cases hid : b.signingId classify with
  | error reason => exact ⟨.keyNotFound reason, rfl, by simp⟩
  | ok id =>
    cases hpair : store id with
    | none => exact ⟨.missingKey id, by simp [hpair], by simp [hpair]⟩
    | some pair =>
      refine ⟨.layout fault, ?_, by simp [hpair]⟩
      simp only [hpair]
      exact signWith_of_fault h .ed25519 pair

/-- A header with a commitment but no audit version, or the other way round, is refused by checks, with and
without a cache, and by signing with a key, and nothing changes. Signing from a store refuses it too and
reports it if it finds the key, but a block of the work kind only loses its signature. -/
theorem refused_of_inconsistent (h : b.header.audit.isSome ≠ b.header.isAudit) (signer : MessageSigner) (key : KeyPair)
    (classify : Script.Classifier) (store : KeyStore) (cache : Option SignatureCache) :
    ∃ fault, b.header.checkLayout = .error fault ∧
      b.signWith signer key = (.error (.layout fault), b) ∧
      b.sign key = (.error (.layout fault), b) ∧
      b.checkSignature classify = .error (.layout fault) ∧
      b.verify classify cache = (.error (.layout fault), cache) ∧
      (b.kind ≠ .work → ∃ e, b.signFromStore classify store = (.error e, b) ∧
        (e = .layout fault ↔ ∃ id pair, b.signingId classify = .ok id ∧ store id = some pair)) ∧
      (b.kind = .work → b.signFromStore classify store = (.ok (), { b with signature := [] })) := by
  cases hl : b.header.checkLayout with
  | ok _ => exact absurd (Header.checkLayout_eq_ok.1 hl).symm h
  | error fault =>
    refine ⟨fault, rfl, signWith_of_fault hl signer key, signWith_of_fault hl .ed25519 key, ?_,
      verify_of_fault hl cache, fun hk => signFromStore_of_fault hl hk store, fun hk => if_pos hk⟩
    exact congrArg Prod.fst (verify_of_fault hl none)

/-- An audit version without a commitment. The store has the key that the block names. -/
theorem refused_of_inconsistent_stripped :
    let key : KeyPair := ⟨⟨List.replicate 32 1, rfl⟩⟩
    let stake : Transaction := ⟨1, [⟨⟨0, 1⟩, .empty, 0⟩], [⟨0, .empty⟩, ⟨5, .coldStake key.publicKey.id 0⟩], 0⟩
    let b : Block := ⟨⟨100, 0, 0, none, 1, 2, 3⟩, [.coinbase 9 [], stake], [7], []⟩
    let cache : SignatureCache := (SignatureCache.new 1).insert b.hash [7] key.publicKey
    b.header.audit.isSome ≠ b.header.isAudit ∧ b.header.checkLayout = .error (.missingCommitment 100) ∧
      b.sign key = (.error (.layout (.missingCommitment 100)), b) ∧
      b.verify (.of true) (some cache) = (.error (.layout (.missingCommitment 100)), some cache) ∧
      b.signFromStore (.of true) (.ofKeys [key]) = (.error (.layout (.missingCommitment 100)), b) := by
  intro key stake b cache
  have h : b.header.audit.isSome ≠ b.header.isAudit := by decide
  have hl : b.header.checkLayout = .error (.missingCommitment 100) := rfl
  have hid : b.signingId (.of true) = .ok key.publicKey.id :=
    bind_eq_ok_iff.2 ⟨_, designated_eq_ok_iff.2 ⟨_, rfl, Script.Kind.of_coldStake _ _⟩, rfl⟩
  obtain ⟨fault, hfault, -, hsign, -, hverify, hstore, -⟩ :=
    refused_of_inconsistent h .ed25519 key (.of true) (.ofKeys [key]) (some cache)
  obtain rfl := Except.error.inj (hl.symm.trans hfault)
  obtain ⟨e, he, hiff⟩ := hstore (by decide)
  obtain rfl := hiff.2 ⟨_, key, hid, KeyStore.ofKeys_singleton key⟩
  exact ⟨h, hl, hsign, hverify, he⟩

/-- A block of the work kind with a commitment loses its signature, where signing with a key and checking
refuse it. -/
theorem signFromStore_inconsistent_work :
    let key : KeyPair := ⟨⟨List.replicate 32 1, rfl⟩⟩
    let b : Block := ⟨⟨5, 0, 0, some ⟨0, 0, 0⟩, 1, 2, 3⟩, [.coinbase 9 []], [7], []⟩
    b.header.checkLayout = .error (.unexpectedCommitment 5) ∧
      b.signFromStore (.of true) (.ofKeys [key]) = (.ok (), { b with signature := [] }) ∧
      { b with signature := [] } ≠ b ∧
      b.sign key = (.error (.layout (.unexpectedCommitment 5)), b) ∧
      b.checkSignature (.of true) = .error (.layout (.unexpectedCommitment 5)) := by
  intro key b
  exact ⟨rfl, if_pos rfl, by decide, rfl, rfl⟩

/-! ## Accepted blocks -/

/-- A block with a signature that is in order has nothing that its kind has no place for, but for summaries. -/
theorem shape_of_checkSignature (h : b.checkSignature classify = .ok ()) :
    b.header.checkLayout = .ok () ∧
      ((b.kind = .work ∧ b.signature = []) ∨ (b.kind ≠ .work ∧ b.hasCoinstake = true ∧ b.signature ≠ [])) := by
  unfold checkSignature at h
  have he := b.expectedSigner_cases classify
  generalize b.expectedSigner classify = found at h he
  cases he with
  | inconsistent | surplus | empty | misplaced | unnamed => cases h
  | unsigned layout kind signature => exact ⟨layout, .inl ⟨kind, signature⟩⟩
  | named layout kind signature coinstake => exact ⟨layout, .inr ⟨kind, coinstake, signature⟩⟩

theorem encodable_of_accepted (h : b.checkSignature classify = .ok ()) (ha : b.checkAudit = .ok ()) : b.Encodable := by
  obtain ⟨layout, shape⟩ := shape_of_checkSignature h
  refine ⟨layout, fun hc => ?_, fun hv => summaries_eq_nil_of_checkAudit hv ha⟩
  rcases shape with ⟨-, hs⟩ | ⟨-, hc', -⟩
  · exact hs
  · cases hc.symm.trans hc'

/-- A work block is accepted only without a signature, any other only with one and with a coinstake to carry
it. If the audit commitment is in order too, the block has an encoding, and within the size limit that
is read back as the same block, of which every check says the same. -/
theorem accepted_travels (h : b.checkSignature classify = .ok ()) :
    ((b.kind = .work ∧ b.signature = []) ∨ (b.kind ≠ .work ∧ b.hasCoinstake = true ∧ b.signature ≠ [])) ∧
    (b.checkAudit = .ok () → ∃ bs, b.encode = .ok bs ∧
      (b.checkSize maxSizeCurrent = .ok () → ∃ received, readAll read bs = .ok received ∧ received = b ∧
        received.checkStructure = b.checkStructure ∧ received.checkMerkleRoot = b.checkMerkleRoot ∧
        received.checkAudit = b.checkAudit ∧ received.checkSignature classify = b.checkSignature classify)) := by
  refine ⟨(shape_of_checkSignature h).2, fun ha => ?_⟩
  obtain ⟨_, -, he⟩ := (encodable_of_accepted h ha).encode_eq
  refine ⟨_, he, fun hsize => ?_⟩
  obtain ⟨bs, he', hread⟩ := readAll_of_checkSize hsize
  obtain rfl := Except.ok.inj (he.symm.trans he')
  exact ⟨b, hread, rfl, rfl, rfl, rfl, rfl⟩

/-- A signed audit block with a summary. -/
theorem accepted_travels_audit :
    let key : KeyPair := ⟨⟨List.replicate 32 1, rfl⟩⟩
    let stake : Transaction :=
      ⟨1, [⟨⟨0, 1⟩, .unlockColdStake [7, 7] true key.publicKey, 0⟩], [⟨0, .empty⟩, ⟨5, .coldStake key.publicKey.id 0⟩], 0⟩
    let bare : Block := ⟨⟨100, 0, 0, none, 1, 2, 3⟩, [.coinbase 9 [], stake], [], [⟨0, 4, 5⟩]⟩
    let b : Block := { bare.updateCommitments with signature := key.sign bare.updateCommitments.hash.toList }
    b.checkSignature (.of true) = .ok () ∧ b.checkAudit = .ok () ∧ b.checkSize maxSizeCurrent = .ok () ∧
      b.kind = .audit ∧ b.hasCoinstake = true ∧ b.signature ≠ [] ∧
      ∃ bs, b.encode = .ok bs ∧ readAll read bs = .ok b := by
  intro key stake bare b
  have hr : bare.updateCommitments.recoverSigner (.of true) = .ok key.publicKey :=
    recoverSigner_of_madeFor rfl rfl rfl (.staker 0 [7, 7] true (by decide)) (by decide +kernel)
  have hcheck : b.checkSignature (.of true) = .ok () := checkSignature_of_verify rfl rfl hr (by decide +kernel)
  have haudit : b.checkAudit = .ok () := by decide +kernel
  have hsize : b.checkSize maxSizeCurrent = .ok () := by decide +kernel
  obtain ⟨shape, travels⟩ := accepted_travels hcheck
  rcases shape with ⟨hk, -⟩ | ⟨-, hc, hs⟩
  · cases hk
  · obtain ⟨bs, he, hsent⟩ := travels haudit
    obtain ⟨_, hread, rfl, -⟩ := hsent hsize
    exact ⟨hcheck, haudit, hsize, rfl, hc, hs, bs, he, hread⟩

end AuditChain.Block
