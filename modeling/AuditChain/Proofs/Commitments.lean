import AuditChain.Proofs.BlockIdentity
import AuditChain.Proofs.MerkleLeaves
/-!
# Commitments that were written pass the checks

`updateCommitments` makes the commitments of a header `Current`: the roots are those of the body, and the
mined hash is that of the header with these roots in it. Of a current header the checks can only say what
is wrong with the body: a mark on one of the trees, or summaries out of order. Distinct transactions are
not marked, and neither are summaries in order, unless the building of the trees shows a collision.
-/

namespace AuditChain

/-! ## Summaries in order -/

/-- Each audited block is higher than those before it. -/
def Ascending (summaries : List Summary) : Prop := summaries.Pairwise fun s t => s.height < t.height

instance (summaries : List Summary) : Decidable (Ascending summaries) :=
  inferInstanceAs (Decidable (summaries.Pairwise fun s t => s.height < t.height))

theorem Header.minedHash?_eq {h : Header} {c : Commitment} (hc : h.audit = some c) :
    h.minedHash? = some (Candidate.mine ⟨h.version, h.prevBlock, h.merkleRoot, c.auditRoot, h.time, h.bits, h.nonce⟩) := by
  simp only [Header.minedHash?, Header.candidate?, hc, Option.map_some]

namespace Block

theorem checkOrder_cases (summaries : List Summary) :
    (checkOrder summaries = .ok () ∧ Ascending summaries) ∨
    ∃ previous height, checkOrder summaries = .error (.auditOrder previous height) ∧ ¬ Ascending summaries := by
  fun_induction checkOrder summaries with
  | case1 s t rest hle =>
    refine .inr ⟨s.height, t.height, rfl, fun hasc => ?_⟩
    exact UInt32.not_lt.2 hle ((List.pairwise_cons.1 hasc).1 t List.mem_cons_self)
  | case2 s t rest hlt ih =>
    rcases ih with ⟨hok, hasc⟩ | ⟨previous, height, herror, hasc⟩
    · refine .inl ⟨hok, List.pairwise_cons.2 ⟨?_, hasc⟩⟩
      intro u hu
      have hst : s.height < t.height := UInt32.not_le.1 hlt
      rcases List.mem_cons.1 hu with rfl | hu
      · exact hst
      · exact UInt32.lt_trans hst ((List.pairwise_cons.1 hasc).1 u hu)
    · exact .inr ⟨previous, height, herror, fun h => hasc h.of_cons⟩
  | case3 summaries hshort =>
    refine .inl ⟨rfl, ?_⟩
    match summaries with
    | [] => exact List.Pairwise.nil
    | [s] => exact List.pairwise_singleton _ s
    | s :: t :: rest => exact (hshort s t rest rfl).elim

/-- Summaries in order are distinct, and so are their leaves. -/
theorem auditTree_of_ascending {b : Block} (hn : ¬ Collision (Merkle.hashed (b.summaries.map AuditChain.encode)))
    (h : Ascending b.summaries) : b.auditTree.mutated = false := by
  have hsummaries : b.summaries.Nodup := by
    refine List.Pairwise.imp ?_ h
    rintro s _ hlt rfl
    exact UInt32.lt_irrefl _ hlt
  have hencodings : (b.summaries.map AuditChain.encode).Nodup :=
    hsummaries.map_on fun s _ t _ he => (delimited_summary s t).eq_of_eq he
  have hleaves : ((b.summaries.map AuditChain.encode).map hash256).Nodup := by
    refine hencodings.map_on fun x hx y hy he => ?_
    exact eq_of_hash256_eq hn (Merkle.contents_subset_hashed _ hx) (Merkle.contents_subset_hashed _ hy) he
  rw [auditTree_eq]
  exact Merkle.mutated_of_nodup (fun hc => hn (hc.mono (Merkle.hashedPairs_subset_hashed _))) hleaves

/-! ## Current commitments -/

/-- The mined hash is that of the header with the new audit root. -/
theorem commitAudit_eq (b : Block) (h : Header) :
    b.commitAudit h =
      { h with audit := some { h.audit.getD default with
          auditRoot := b.auditTree.root
          minedHash := Candidate.mine
            ⟨h.version, h.prevBlock, h.merkleRoot, b.auditTree.root, h.time, h.bits, h.nonce⟩ } } := rfl

theorem updateCommitments_of_plain {b : Block} (ha : b.header.isAudit = false) :
    b.updateCommitments = { b with header := { b.header with merkleRoot := b.merkleTree.root } } :=
  congrArg (fun header => { b with header := header }) (if_neg (Bool.eq_false_iff.1 ha))

theorem updateCommitments_of_audit {b : Block} (ha : b.header.isAudit = true) :
    b.updateCommitments = { b with header := b.commitAudit { b.header with merkleRoot := b.merkleTree.root } } :=
  congrArg (fun header => { b with header := header }) (if_pos ha)

/-- The commitments in the header are those of the block. -/
structure Current (b : Block) : Prop where
  merkleRoot : b.header.merkleRoot = b.merkleTree.root
  audit : b.header.isAudit = true →
    ∃ c, b.header.audit = some c ∧ c.auditRoot = b.auditTree.root ∧ b.header.minedHash? = some c.minedHash

namespace Current

variable {b : Block} (h : b.Current)

include h

theorem checkLayout (ha : b.header.isAudit = true) : b.header.checkLayout = .ok () := by
  obtain ⟨c, hc, -⟩ := h.audit ha
  rw [Header.checkLayout_eq_ok, ha, hc]
  rfl

theorem checkMerkleRoot :
    b.checkMerkleRoot = if b.merkleTree.mutated then .error .mutatedMerkleTree else .ok () := by
  unfold Block.checkMerkleRoot
  exact if_neg (not_not.2 h.merkleRoot.symm)

/-- The root matches, so a mark is all that the check can find. -/
theorem checkMerkleRoot_ne (header computed : Hash256) : b.checkMerkleRoot ≠ .error (.merkleMismatch header computed) := by
  rw [h.checkMerkleRoot]
  split <;> simp

theorem checkMerkleRoot_of_nodup (hn : ¬ Collision (Merkle.hashedPairs (b.transactions.map Transaction.hash)))
    (hd : (b.transactions.map Transaction.hash).Nodup) : b.checkMerkleRoot = .ok () := by
  have hm : b.merkleTree.mutated = false := Merkle.mutated_of_nodup hn hd
  rw [h.checkMerkleRoot, hm]
  rfl

theorem checkAudit (ha : b.header.isAudit = true) :
    b.checkAudit = (checkOrder b.summaries >>= fun _ =>
      if b.auditTree.mutated then .error .mutatedAuditTree else .ok ()) := by
  obtain ⟨c, hc, hroot, hmined⟩ := h.audit ha
  unfold Block.checkAudit
  rw [ha, hc]
  cases checkOrder b.summaries with
  | error e => rfl
  | ok _ =>
    cases hm : b.auditTree.mutated <;>
      simp [bind, Except.bind, hm, hroot, hmined, throw, throwThe, MonadExceptOf.throw, pure, Except.pure]

/-- All that the check of an audit block can come to. -/
theorem checkAudit_cases (ha : b.header.isAudit = true) :
    (b.checkAudit = .ok () ∧ Ascending b.summaries ∧ b.auditTree.mutated = false) ∨
    (b.checkAudit = .error .mutatedAuditTree ∧ Ascending b.summaries ∧ b.auditTree.mutated = true) ∨
    ∃ previous height, b.checkAudit = .error (.auditOrder previous height) ∧ ¬ Ascending b.summaries := by
  rw [h.checkAudit ha]
  rcases checkOrder_cases b.summaries with ⟨hok, hasc⟩ | ⟨previous, height, herror, hasc⟩
  · rw [hok]
    cases hm : b.auditTree.mutated with
    | false => exact .inl ⟨rfl, hasc, rfl⟩
    | true => exact .inr (.inl ⟨rfl, hasc, rfl⟩)
  · rw [herror]
    exact .inr (.inr ⟨previous, height, rfl, hasc⟩)

/-- Neither the root nor the mined hash can be wrong. -/
theorem error_of_checkAudit (ha : b.header.isAudit = true) {e : CheckError} (he : b.checkAudit = .error e) :
    e = .mutatedAuditTree ∨ ∃ previous height, e = .auditOrder previous height := by
  rcases h.checkAudit_cases ha with ⟨h, -⟩ | ⟨h, -⟩ | ⟨previous, height, h, -⟩
  · cases h.symm.trans he
  · exact .inl (Except.error.inj (he.symm.trans h))
  · exact .inr ⟨previous, height, Except.error.inj (he.symm.trans h)⟩

theorem ascending_of_checkAudit (ha : b.header.isAudit = true) (hok : b.checkAudit = .ok ()) : Ascending b.summaries := by
  rcases h.checkAudit_cases ha with ⟨-, hasc, -⟩ | ⟨-, hasc, -⟩ | ⟨_, _, h, -⟩
  · exact hasc
  · exact hasc
  · cases hok.symm.trans h

theorem checkAudit_of_ascending (ha : b.header.isAudit = true)
    (hn : ¬ Collision (Merkle.hashed (b.summaries.map AuditChain.encode))) (hasc : Ascending b.summaries) :
    b.checkAudit = .ok () := by
  rcases h.checkAudit_cases ha with ⟨h, -⟩ | ⟨-, -, hm⟩ | ⟨_, _, -, hnot⟩
  · exact h
  · cases hm.symm.trans (auditTree_of_ascending hn hasc)
  · exact absurd hasc hnot

/-- Writing them again changes nothing. -/
theorem updateCommitments_eq : b.updateCommitments = b := by
  have hheader : { b.header with merkleRoot := b.merkleTree.root } = b.header := by rw [← h.merkleRoot]
  cases ha : b.header.isAudit with
  | false => rw [updateCommitments_of_plain ha, hheader]
  | true =>
    obtain ⟨c, hc, hroot, hmined⟩ := h.audit ha
    rw [Header.minedHash?_eq hc, hroot] at hmined
    rw [updateCommitments_of_audit ha, hheader, commitAudit_eq, hc, Option.getD_some, Option.some.inj hmined, ← hroot,
      ← hc]

end Current

/-! ## Writing them -/

theorem current_updateCommitments (b : Block) : b.updateCommitments.Current := by
  cases ha : b.header.isAudit with
  | false =>
    rw [updateCommitments_of_plain ha]
    exact ⟨rfl, fun ha' => absurd (ha.symm.trans ha') Bool.false_ne_true⟩
  | true =>
    rw [updateCommitments_of_audit ha]
    exact ⟨rfl, fun _ => ⟨_, rfl, rfl, rfl⟩⟩

/-- Two blocks that differ at most in what they commit to: the roots, and in an audit block the mined hash
and whether the commitment was there. A commitment that was missing has no link. -/
structure Recommitted (b u : Block) : Prop where
  transactions : u.transactions = b.transactions
  signature : u.signature = b.signature
  summaries : u.summaries = b.summaries
  header : { u.header with merkleRoot := b.header.merkleRoot, audit := b.header.audit } = b.header
  plain : b.header.isAudit = false → u.header.audit = b.header.audit
  link : b.header.isAudit = true → u.header.audit.map Commitment.prevAudit = some (b.header.audit.getD default).prevAudit

theorem Recommitted.isAudit {b u : Block} (h : b.Recommitted u) : u.header.isAudit = b.header.isAudit := by
  rw [← h.header]
  rfl

theorem recommitted_updateCommitments (b : Block) : b.Recommitted b.updateCommitments := by
  cases ha : b.header.isAudit with
  | false =>
    rw [updateCommitments_of_plain ha]
    exact ⟨rfl, rfl, rfl, rfl, fun _ => rfl, fun ha' => absurd (ha.symm.trans ha') Bool.false_ne_true⟩
  | true =>
    rw [updateCommitments_of_audit ha]
    exact ⟨rfl, rfl, rfl, rfl, fun ha' => absurd (ha'.symm.trans ha) Bool.false_ne_true, fun _ => rfl⟩

/-! ## Main theorem -/

/-- What `updateCommitments` writes agrees with the body. So the layout of an audit header is right, and the checks
find neither a wrong root nor a wrong mined hash; they pass a block with distinct transactions, and an audit block
just if its summaries ascend, unless the trees over them show a collision. A second time writes the same, and nothing
but the commitments is written. -/
theorem updateCommitments_passes (b : Block) :
    let u := b.updateCommitments
    (b.header.isAudit = true → u.header.checkLayout = .ok ()) ∧
    (∀ header computed, u.checkMerkleRoot ≠ .error (.merkleMismatch header computed)) ∧
    ((b.transactions.map Transaction.hash).Nodup →
      u.checkMerkleRoot = .ok () ∨ Collision (Merkle.hashedPairs (b.transactions.map Transaction.hash))) ∧
    (b.header.isAudit = true →
      u.checkAudit ≠ .error .missingCommitment ∧
      (∀ header computed, u.checkAudit ≠ .error (.auditMerkleMismatch header computed)) ∧
      u.checkAudit ≠ .error .minedHashMismatch ∧
      (u.checkAudit = .ok () → Ascending b.summaries) ∧
      (Ascending b.summaries →
        u.checkAudit = .ok () ∨ Collision (Merkle.hashed (b.summaries.map AuditChain.encode)))) ∧
    u.updateCommitments = u ∧ b.Recommitted u := by
  intro u
  have hu : u.Current := b.current_updateCommitments
  have hb : b.Recommitted u := b.recommitted_updateCommitments
  have hkind := hb.isAudit
  refine ⟨fun ha => hu.checkLayout (hkind.trans ha), hu.checkMerkleRoot_ne, ?_, ?_, hu.updateCommitments_eq, hb⟩
  · rw [← hb.transactions]
    intro hd
    by_cases hn : Collision (Merkle.hashedPairs (u.transactions.map Transaction.hash))
    · exact .inr hn
    · exact .inl (hu.checkMerkleRoot_of_nodup hn hd)
  · rw [← hb.summaries, ← hkind]
    intro ha
    refine ⟨fun h => ?_, fun _ _ h => ?_, fun h => ?_, hu.ascending_of_checkAudit ha, fun hasc => ?_⟩
    · simpa using hu.error_of_checkAudit ha h
    · simpa using hu.error_of_checkAudit ha h
    · simpa using hu.error_of_checkAudit ha h
    · by_cases hn : Collision (Merkle.hashed (u.summaries.map AuditChain.encode))
      · exact .inr hn
      · exact .inl (hu.checkAudit_of_ascending ha hn hasc)

/-- An audit header without a commitment, over two transactions and two summaries. -/
theorem updateCommitments_passes_bare :
    let header : Header := ⟨100, 0, 0, none, 1, 2, 3⟩
    let pay : Transaction := .coinbase 7 [⟨50, ⟨[81]⟩⟩]
    let move : Transaction := ⟨1, [⟨⟨0, 1⟩, ⟨[]⟩, 9⟩], [⟨20, ⟨[82]⟩⟩], 0⟩
    let b : Block := ⟨header, [pay, move], [1], [⟨0, 4, 5⟩, ⟨0, 4, 6⟩]⟩
    let u := b.updateCommitments
    b.header.isAudit = true ∧ b.header.checkLayout = .error (.missingCommitment 100) ∧
    (b.transactions.map Transaction.hash).Nodup ∧ Ascending b.summaries ∧
    u.header.checkLayout = .ok () ∧
    (u.checkMerkleRoot = .ok () ∨ Collision (Merkle.hashedPairs (b.transactions.map Transaction.hash))) ∧
    (u.checkAudit = .ok () ∨ Collision (Merkle.hashed (b.summaries.map AuditChain.encode))) ∧
    u.updateCommitments = u ∧ b.Recommitted u := by
  intro header pay move b u
  have hdistinct : (b.transactions.map Transaction.hash).Nodup := by decide +kernel
  have hasc : Ascending b.summaries := by decide
  obtain ⟨hlayout, -, hmerkle, haudit, hagain, hframe⟩ := updateCommitments_passes b
  obtain ⟨-, -, -, -, hpass⟩ := haudit rfl
  exact ⟨rfl, rfl, hdistinct, hasc, hlayout rfl, hmerkle hdistinct, hpass hasc, hagain, hframe⟩

end Block

end AuditChain
