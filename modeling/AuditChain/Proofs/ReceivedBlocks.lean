import AuditChain.Proofs.Acceptance
import AuditChain.Proofs.Commitments
/-!
# What a block that was read cannot be refused for

The reader takes a signature or summaries only where the header and the transactions have a place for them. So
a block that was read is `Encodable`, and of such a block the checks find no part that does not fit its
kind: they can only judge what the parts say.
-/

namespace AuditChain.Block

variable {classify : Script.Classifier} {b : Block} {bs : Bytes}

theorem encode_of_readAll (h : readAll read bs = .ok b) : b.encode = .ok bs := by
  obtain ⟨taken, rfl, he⟩ := ensures_readBlock (Reader.of_readAll h)
  rw [he, List.append_nil]

theorem size_of_encode (h : b.encode = .ok bs) : b.size = .ok bs.length := congrArg (Except.map List.length) h

theorem checkSize_of_encode (h : b.encode = .ok bs) (limit : Nat) :
    b.checkSize limit = if limit < bs.length then .error (.oversized bs.length limit) else .ok () := by
  unfold checkSize
  rw [size_of_encode h]

/-! ## Checks of a block that has an encoding -/

namespace Encodable

variable (h : b.Encodable)

include h

/-- A signature is missing, or its signer is not found. -/
theorem error_of_expectedSigner {e : SignatureError} (he : b.expectedSigner classify = .error e) :
    e = .emptySignature b.kind ∨ ∃ reason, e = .keyNotFound reason := by
  have hcases := b.expectedSigner_cases classify
  rw [he] at hcases
  cases hcases with
  | inconsistent layout => cases h.layout.symm.trans layout
  | surplus _ kind signature =>
    have hc : b.hasCoinstake = false := by
      by_contra hc
      have hrequires := requiresSignature_of_hasCoinstake (Bool.eq_true_of_not_eq_false hc)
      rw [Kind.requiresSignature_eq_false_iff.2 kind] at hrequires
      cases hrequires
    exact absurd (h.signature hc) signature
  | empty => exact .inl rfl
  | misplaced _ _ signature coinstake => exact absurd (h.signature coinstake) signature
  | unnamed => exact .inr ⟨_, rfl⟩

theorem error_of_checkSignature {e : SignatureError} (he : b.checkSignature classify = .error e) :
    e = .emptySignature b.kind ∨ (∃ reason, e = .keyNotFound reason) ∨ e = .mismatch := by
  unfold checkSignature verifyWith at he
  split at he
  · rename_i hsigner
    cases he
    exact (h.error_of_expectedSigner hsigner).imp_right .inl
  · cases he
  · split at he
    · cases he
    · exact .inr (.inr (Except.error.inj he).symm)

/-- Summaries are out of order, or the commitment does not agree with them. -/
theorem error_of_checkAudit {e : CheckError} (he : b.checkAudit = .error e) :
    (∃ previous height, e = .auditOrder previous height) ∨ (∃ header computed, e = .auditMerkleMismatch header computed) ∨
      e = .mutatedAuditTree ∨ e = .minedHashMismatch := by
  unfold checkAudit at he
  cases ha : b.header.isAudit with
  | false => simp [ha, h.summaries ha] at he
  | true =>
    have hl := Header.checkLayout_eq_ok.1 h.layout
    obtain ⟨c, hc⟩ := Option.isSome_iff_exists.1 (hl.symm.trans ha)
    rw [ha, hc] at he
    rcases checkOrder_cases b.summaries with ⟨hok, -⟩ | ⟨previous, height, herror, -⟩
    · simp only [hok, Bool.not_true, Bool.false_eq_true, if_false, bind, Except.bind] at he
      split at he
      · exact .inr (.inl ⟨_, _, (Except.error.inj he).symm⟩)
      split at he
      · exact .inr (.inr (.inl (Except.error.inj he).symm))
      split at he
      · exact .inr (.inr (.inr (Except.error.inj he).symm))
      · cases he
    · rw [herror] at he
      exact .inl ⟨previous, height, (Except.error.inj he).symm⟩

end Encodable

/-! ## Main theorem -/

/-- A block that was read has a consistent header, a signature only with a coinstake to carry it, and summaries only in an
audit block. So no check finds that a part does not fit, with any classifier, and the size of the block is that of the
bytes it was read from. -/
theorem readAll_fits (h : readAll read bs = .ok b) :
    b.header.checkLayout = .ok () ∧ (b.hasCoinstake = false → b.signature = []) ∧
    (b.header.isAudit = false → b.summaries = []) ∧
    (∀ classify, (∀ fault, b.checkSignature classify ≠ .error (.layout fault)) ∧
      ∀ length, b.checkSignature classify ≠ .error (.unexpectedSignature length)) ∧
    b.checkAudit ≠ .error .missingCommitment ∧ b.checkAudit ≠ .error .unexpectedSummaries ∧
    b.size = .ok bs.length ∧
    ∀ limit, (∀ fault, b.checkSize limit ≠ .error (.unencodable fault)) ∧
      b.checkSize limit = if limit < bs.length then .error (.oversized bs.length limit) else .ok () := by
  have he := encode_of_readAll h
  have hb := encodable_of_encode he
  refine ⟨hb.layout, hb.signature, hb.summaries, fun classify => ⟨fun fault hf => ?_, fun length hf => ?_⟩, fun hf => ?_,
    fun hf => ?_, size_of_encode he, fun limit => ⟨fun fault hf => ?_, checkSize_of_encode he limit⟩⟩
  · simpa using hb.error_of_checkSignature hf
  · simpa using hb.error_of_checkSignature hf
  · simpa using hb.error_of_checkAudit hf
  · simpa using hb.error_of_checkAudit hf
  · rw [checkSize_of_encode he] at hf
    split at hf <;> cases hf

/-- An audit block without a coinstake has summaries on the wire and no signature. -/
theorem readAll_fits_unsigned_audit :
    let bs : Bytes := [100, 0, 0, 0] ++ List.replicate 160 0 ++ [1, 0, 0, 0, 2, 0, 0, 0, 3, 0, 0, 0] ++
      (1 :: [1, 0, 0, 0, 1] ++ List.replicate 32 0 ++ [255, 255, 255, 255, 0, 255, 255, 255, 255, 0, 0, 0, 0, 0]) ++
      (1 :: List.replicate 32 6 ++ [4, 0, 0, 0, 7, 0, 0, 0])
    let b : Block := ⟨⟨100, 0, 0, some ⟨0, 0, 0⟩, 1, 2, 3⟩, [⟨1, [⟨.null, .empty, 0xffffffff⟩], [], 0⟩], [],
      [⟨⟨List.replicate 32 6, rfl⟩, 4, 7⟩]⟩
    readAll read bs = .ok b ∧ b.kind = .audit ∧ b.hasCoinstake = false ∧ b.signature = [] ∧
      b.header.checkLayout = .ok () ∧ (∀ classify fault, b.checkSignature classify ≠ .error (.layout fault)) ∧
      b.checkAudit ≠ .error .missingCommitment ∧ b.size = .ok 269 ∧
      b.checkSize 268 = .error (.oversized 269 268) ∧ b.checkSize 269 = .ok () := by
  intro bs b
  have h : readAll read bs = .ok b := by decide +kernel
  have hlen : bs.length = 269 := by decide +kernel
  obtain ⟨layout, signature, -, checks, missing, -, size, sizes⟩ := readAll_fits h
  rw [hlen] at size sizes
  exact ⟨h, rfl, rfl, signature rfl, layout, fun classify => (checks classify).1, missing, size, (sizes 268).2, (sizes 269).2⟩

end AuditChain.Block
