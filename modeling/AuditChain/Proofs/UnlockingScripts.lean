import AuditChain.Proofs.Classification
import AuditChain.Proofs.SignerRecovery
/-!
# A grammar of unlocking scripts

Where an output commits to a hash, the signer's key is looked for in the unlocking script of the coinstake's
first input. The lengths in it come from whoever made the block. A key is found just in the scripts of a small
grammar, every other script is refused for what is wrong with it, and no length leads beyond the script.
-/

namespace AuditChain

namespace Script

/-! ## Keys by their offsets -/

/-- The offset behind the push at `start`. A length byte and at least one byte of a key must follow it. -/
def skipPushAt (bs : Bytes) (start : Nat) : Except RecoveryError Nat :=
  match bs[start]? with
  | none => .error .malformed
  | some n =>
    let next := start + 1 + n.toNat
    if bs.length ≤ next + 1 then .error .malformed else .ok next

/-- The key behind the length byte at `start`. There is none if that byte would lie beyond the script. -/
def keyAt? (bs : Bytes) (start : Nat) : Option PublicKey := (slice? bs (start + 1) bs.length).map PublicKey.mk

def keyAfterSignatureAt (bs : Bytes) : Except RecoveryError (Option PublicKey) :=
  match bs[0]? with
  | none => .error .malformed
  | some n => if bs.length ≤ 1 + n.toNat then .error .signatureOnly else (skipPushAt bs 0).map (keyAt? bs)

def keyAfterFlagAt (bs : Bytes) : Except RecoveryError (Option PublicKey) := do
  let afterSignature ← skipPushAt bs 0
  let afterFlag ← skipPushAt bs afterSignature
  return keyAt? bs afterFlag

/-- Here the length is checked, so a slice that reaches too far is only refused. -/
def keyOfMintAt (bs : Bytes) : Except RecoveryError PublicKey :=
  if bs[0]? = some Op.spendMint then
    match bs[1]? with
    | none => .error .malformed
    | some n =>
      match slice? bs 2 (2 + n.toNat) with
      | none => .error .malformed
      | some key => .ok ⟨key⟩
  else .error .malformed

/-- What follows a push is what follows it by its offset. -/
theorem skipPush_drop (bs : Bytes) (start : Nat) :
    skipPush (bs.drop start) = (skipPushAt bs start).map fun next => bs.drop next := by
  unfold skipPushAt
  cases hn : bs[start]? with
  | none =>
    rw [List.drop_eq_nil_of_le (List.getElem?_eq_none_iff.1 hn)]
    rfl
  | some n =>
    obtain ⟨hlt, rfl⟩ := List.getElem?_eq_some_iff.1 hn
    rw [List.drop_eq_getElem_cons hlt]
    simp only [skipPush, List.drop_drop, List.length_drop]
    split <;> split
    · rfl
    · omega
    · omega
    · rfl

/-- Behind a push there is room for a key. -/
theorem keyAt?_of_skipPushAt {bs : Bytes} {start next : Nat} (h : skipPushAt bs start = .ok next) :
    keyAt? bs next = some (trailingKey (bs.drop next)) := by
  have hlt : next + 1 < bs.length := by
    unfold skipPushAt at h
    split at h
    · cases h
    · dsimp only at h
      split at h
      · cases h
      · obtain rfl := Except.ok.inj h
        omega
  rw [keyAt?, slice?, if_pos ⟨by omega, Nat.le_refl _⟩, List.take_length, trailingKey, List.drop_drop]
  rfl

theorem skipPushAt_map_keyAt? (bs : Bytes) (start : Nat) :
    (skipPushAt bs start).map (keyAt? bs) = ((skipPush (bs.drop start)).map trailingKey).map some := by
  rw [skipPush_drop]
  cases h : skipPushAt bs start with
  | error e => rfl
  | ok next => exact congrArg Except.ok (keyAt?_of_skipPushAt h)

/-- The key is found by its offset, whatever the signature's length byte says. -/
theorem keyAfterSignatureAt_eq (s : Script) : keyAfterSignatureAt s.bytes = s.keyAfterSignature.map some := by
  unfold keyAfterSignatureAt keyAfterSignature
  cases hbs : s.bytes with
  | nil => rfl
  | cons n rest =>
    have h := skipPushAt_map_keyAt? (n :: rest) 0
    rw [List.drop_zero] at h
    simp only [List.getElem?_cons_zero, List.length_cons, h]
    split <;> split
    · rfl
    · omega
    · omega
    · rfl

theorem keyAfterFlagAt_eq (s : Script) : keyAfterFlagAt s.bytes = s.keyAfterFlag.map some := by
  have hfirst := skipPush_drop s.bytes 0
  rw [List.drop_zero] at hfirst
  rw [keyAfterFlagAt, keyAfterFlag, hfirst]
  cases skipPushAt s.bytes 0 with
  | error e => rfl
  | ok afterSignature => exact skipPushAt_map_keyAt? s.bytes afterSignature

theorem keyOfMintAt_eq (s : Script) : keyOfMintAt s.bytes = s.keyOfMint := by
  unfold keyOfMintAt keyOfMint
  match hbs : s.bytes with
  | [] => rfl
  | [op] =>
    simp only [List.getElem?_cons_zero, List.getElem?_cons_succ, List.getElem?_nil]
    split <;> rfl
  | op :: n :: rest =>
    simp only [List.getElem?_cons_zero, List.getElem?_cons_succ, Option.some.injEq]
    by_cases hop : op = Op.spendMint
    · by_cases hlen : n.toNat ≤ rest.length
      · have hslice : slice? (op :: n :: rest) 2 (2 + n.toNat) = some (rest.take n.toNat) := by
          rw [slice?, if_pos ⟨by omega, by simp only [List.length_cons]; omega⟩, List.drop_take, Nat.add_sub_cancel_left]
          rfl
        rw [if_pos hop, if_pos ⟨hop, hlen⟩, hslice]
      · have hslice : slice? (op :: n :: rest) 2 (2 + n.toNat) = none := by
          rw [slice?, if_neg]
          simp only [List.length_cons]
          omega
        rw [if_pos hop, if_neg fun h => hlen h.2, hslice]
    · rw [if_neg hop, if_neg fun h => hop h.1]

/-! ## The grammar -/

/-- A signature behind its length, a byte and the key. -/
def IsSignatureKey (u : Bytes) (key : PublicKey) : Prop :=
  ∃ n signature b, u = [n] ++ signature ++ [b] ++ key.bytes ∧ signature.length = n.toNat

/-- A signature and a flag, each behind its length, a byte and the key. -/
def IsSignatureFlagKey (u : Bytes) (key : PublicKey) : Prop :=
  ∃ n signature m flag b, u = [n] ++ signature ++ [m] ++ flag ++ [b] ++ key.bytes ∧
    signature.length = n.toNat ∧ flag.length = m.toNat

/-- The opcode, the key behind its length, and anything. -/
def IsSpend (u : Bytes) (key : PublicKey) : Prop :=
  ∃ n rest, u = [Op.spendMint, n] ++ key.bytes ++ rest ∧ key.bytes.length = n.toNat

theorem keyAfterSignature_eq_ok_iff_grammar {s : Script} {key : PublicKey} :
    s.keyAfterSignature = .ok key ↔ IsSignatureKey s.bytes key ∧ key.bytes ≠ [] := by
  rw [keyAfterSignature_eq_ok_iff]
  constructor
  · rintro ⟨n, signature, b, hbs, hn, hne⟩
    exact ⟨⟨n, signature, b, by simp [hbs], hn⟩, hne⟩
  · rintro ⟨⟨n, signature, b, hbs, hn⟩, hne⟩
    exact ⟨n, signature, b, by simp [hbs], hn, hne⟩

theorem keyAfterFlag_eq_ok_iff_grammar {s : Script} {key : PublicKey} :
    s.keyAfterFlag = .ok key ↔ IsSignatureFlagKey s.bytes key ∧ key.bytes ≠ [] := by
  rw [keyAfterFlag_eq_ok_iff]
  constructor
  · rintro ⟨n, signature, m, flag, b, hbs, hn, hm, hne⟩
    exact ⟨⟨n, signature, m, flag, b, by simp [hbs], hn, hm⟩, hne⟩
  · rintro ⟨⟨n, signature, m, flag, b, hbs, hn, hm⟩, hne⟩
    exact ⟨n, signature, m, flag, b, by simp [hbs], hn, hm, hne⟩

theorem keyOfMint_eq_ok_iff_grammar {s : Script} {key : PublicKey} : s.keyOfMint = .ok key ↔ IsSpend s.bytes key := by
  simp [keyOfMint_eq_ok_iff, IsSpend]

/-! ## Refusals -/

/-- How long the script is against its first byte decides what is wrong with it. -/
theorem keyAfterSignature_of_cons {s : Script} {n : UInt8} {rest : Bytes} (h : s.bytes = n :: rest) :
    s.keyAfterSignature =
      if rest.length ≤ n.toNat then .error .signatureOnly
      else if rest.length = n.toNat + 1 then .error .malformed
      else .ok ⟨rest.drop (n.toNat + 1)⟩ := by
  rw [keyAfterSignature, h]
  dsimp only
  split
  · rfl
  · simp only [skipPush, List.length_drop]
    split <;> split
    · rfl
    · omega
    · omega
    · simp [Except.map, trailingKey, List.drop_drop]

theorem keyAfterSignature_eq_error_iff {s : Script} {e : RecoveryError} :
    s.keyAfterSignature = .error e ↔
      e = .signatureOnly ∧ (∃ n rest, s.bytes = n :: rest ∧ s.bytes.length ≤ 1 + n.toNat) ∨
      e = .malformed ∧ (s.bytes = [] ∨ ∃ n rest, s.bytes = n :: rest ∧ s.bytes.length = 2 + n.toNat) := by
  cases hbs : s.bytes with
  | nil => simp [keyAfterSignature, hbs, eq_comm]
  | cons n rest =>
    rw [keyAfterSignature_of_cons hbs]
    have first : ∀ P : UInt8 → Prop, (∃ n' rest', n :: rest = n' :: rest' ∧ P n') ↔ P n := by simp
    simp only [List.length_cons, reduceCtorEq, false_or]
    rw [first fun n => rest.length + 1 ≤ 1 + n.toNat, first fun n => rest.length + 1 = 2 + n.toNat]
    constructor
    · intro h
      split at h
      · cases h
        exact .inl ⟨rfl, by omega⟩
      · split at h
        · cases h
          exact .inr ⟨rfl, by omega⟩
        · cases h
    · rintro (⟨rfl, hlen⟩ | ⟨rfl, hlen⟩)
      · rw [if_pos (by omega)]
      · rw [if_neg (by omega), if_pos (by omega)]

/-- What a push is not skipped for is no key, and there is one word for it. -/
theorem skipPush_error {bs : Bytes} {e : RecoveryError} (h : skipPush bs = .error e) : e = .malformed := by
  unfold skipPush at h
  split at h
  · cases h
    rfl
  · dsimp only at h
    split at h
    · cases h
      rfl
    · cases h

theorem keyAfterFlag_error {s : Script} {e : RecoveryError} (h : s.keyAfterFlag = .error e) : e = .malformed := by
  rcases bind_eq_error_iff.1 h with hs | ⟨afterSignature, -, h⟩
  · exact skipPush_error hs
  · rcases bind_eq_error_iff.1 h with hf | ⟨afterFlag, -, h⟩
    · exact skipPush_error hf
    · cases h

end Script

namespace Block

/-! ## From the key that is found to the signer -/

variable {classify : Script.Classifier} {b : Block} {s : Script} {kind : Script.Kind}
  {found : Except RecoveryError PublicKey} {committed : PublicKey → Bool} {key : PublicKey}

/-- A key that was found, if the output commits to it and it is usable. -/
def judge (found : Except RecoveryError PublicKey) (committed : PublicKey → Bool) : Except RecoveryError PublicKey := do
  let key ← found
  let key ← matching key (committed key)
  if key.isValid then return key else throw (.invalidKey key)

theorem recoverSigner_eq_judge (find : Script → Except RecoveryError PublicKey) (committed : PublicKey → Bool)
    (hd : b.designated classify = .ok kind) (hs : b.stakeScript = .ok s)
    (hn : b.namedKey kind = do let key ← find (← b.stakeScript); matching key (committed key)) :
    b.recoverSigner classify = judge (find s) committed := by
  rw [recoverSigner, hd, judge]
  simp only [hn, hs, bind, Except.bind]
  cases find s <;> rfl

theorem judge_ok (key : PublicKey) :
    judge (.ok key) committed =
      if committed key = true then if key.isValid = true then .ok key else .error (.invalidKey key)
      else .error .keyMismatch := by
  cases hc : committed key <;> simp [judge, matching, hc, bind, Except.bind, pure, Except.pure, throw, throwThe,
    MonadExceptOf.throw]

theorem judge_eq_ok_iff :
    judge found committed = .ok key ↔ found = .ok key ∧ key.isValid = true ∧ committed key = true := by
  constructor
  · intro h
    cases found with
    | error e => cases h
    | ok found =>
      rw [judge_ok] at h
      split at h
      · split at h
        · obtain rfl := Except.ok.inj h
          exact ⟨rfl, ‹_›, ‹_›⟩
        · cases h
      · cases h
  · rintro ⟨rfl, hv, hc⟩
    rw [judge_ok, if_pos hc, if_pos hv]

/-- An error is that of the search, or the key that was found is not committed to, or it is not usable. -/
theorem judge_eq_error_iff {e : RecoveryError} :
    judge found committed = .error e ↔
      found = .error e ∨ (e = .keyMismatch ∧ ∃ key, found = .ok key ∧ committed key = false) ∨
        ∃ key, e = .invalidKey key ∧ found = .ok key ∧ committed key = true ∧ key.isValid = false := by
  constructor
  · intro h
    cases found with
    | error e' => exact .inl h
    | ok found =>
      rw [judge_ok] at h
      split at h
      · rename_i hc
        split at h
        · cases h
        · rename_i hv
          cases h
          exact .inr (.inr ⟨found, rfl, rfl, hc, eq_false_of_ne_true hv⟩)
      · rename_i hc
        cases h
        exact .inr (.inl ⟨rfl, found, rfl, eq_false_of_ne_true hc⟩)
  · rintro (rfl | ⟨rfl, key, rfl, hc⟩ | ⟨key, rfl, rfl, hc, hv⟩)
    · rfl
    · rw [judge_ok, hc, if_neg nofun]
    · rw [judge_ok, if_pos hc, hv, if_neg nofun]

/-! ## What each kind of script comes to -/

/-- A usable key is not empty, so this need not be asked of it as well. -/
theorem judge_eq_ok_iff_of_grammar {grammar : PublicKey → Prop}
    (h : ∀ key, found = .ok key ↔ grammar key ∧ key.bytes ≠ []) :
    judge found committed = .ok key ↔ grammar key ∧ key.isValid = true ∧ committed key = true := by
  rw [judge_eq_ok_iff, h]
  constructor
  · rintro ⟨⟨hg, -⟩, hv, hc⟩
    exact ⟨hg, hv, hc⟩
  · rintro ⟨hg, hv, hc⟩
    exact ⟨⟨hg, Script.ne_nil_of_length (PublicKey.length_of_isValid hv)⟩, hv, hc⟩

theorem judge_keyAfterSignature_eq_ok_iff :
    judge s.keyAfterSignature committed = .ok key ↔
      Script.IsSignatureKey s.bytes key ∧ key.isValid = true ∧ committed key = true :=
  judge_eq_ok_iff_of_grammar fun _ => Script.keyAfterSignature_eq_ok_iff_grammar

theorem judge_keyAfterSignature_eq_signatureOnly_iff :
    judge s.keyAfterSignature committed = .error .signatureOnly ↔
      ∃ n rest, s.bytes = n :: rest ∧ s.bytes.length ≤ 1 + n.toNat := by
  simp [judge_eq_error_iff, Script.keyAfterSignature_eq_error_iff]

theorem judge_keyAfterSignature_eq_malformed_iff :
    judge s.keyAfterSignature committed = .error .malformed ↔
      s.bytes = [] ∨ ∃ n rest, s.bytes = n :: rest ∧ s.bytes.length = 2 + n.toNat := by
  simp [judge_eq_error_iff, Script.keyAfterSignature_eq_error_iff]

theorem judge_keyAfterSignature_eq_keyMismatch_iff :
    judge s.keyAfterSignature committed = .error .keyMismatch ↔
      ∃ key, (Script.IsSignatureKey s.bytes key ∧ key.bytes ≠ []) ∧ committed key = false := by
  simp [judge_eq_error_iff, Script.keyAfterSignature_eq_error_iff, Script.keyAfterSignature_eq_ok_iff_grammar]

theorem judge_keyAfterSignature_eq_invalidKey_iff :
    judge s.keyAfterSignature committed = .error (.invalidKey key) ↔
      (Script.IsSignatureKey s.bytes key ∧ key.bytes ≠ []) ∧ committed key = true ∧ key.isValid = false := by
  simp [judge_eq_error_iff, Script.keyAfterSignature_eq_error_iff, Script.keyAfterSignature_eq_ok_iff_grammar]

theorem judge_keyAfterFlag_eq_ok_iff :
    judge s.keyAfterFlag committed = .ok key ↔
      Script.IsSignatureFlagKey s.bytes key ∧ key.isValid = true ∧ committed key = true :=
  judge_eq_ok_iff_of_grammar fun _ => Script.keyAfterFlag_eq_ok_iff_grammar

theorem judge_keyAfterFlag_eq_malformed_iff :
    judge s.keyAfterFlag committed = .error .malformed ↔
      ¬ ∃ key, Script.IsSignatureFlagKey s.bytes key ∧ key.bytes ≠ [] := by
  simp only [← Script.keyAfterFlag_eq_ok_iff_grammar, judge_eq_error_iff, reduceCtorEq, false_and, exists_false, or_false]
  constructor
  · rintro h ⟨key, hk⟩
    rw [h] at hk
    cases hk
  · intro h
    cases hf : s.keyAfterFlag with
    | error e => rw [Script.keyAfterFlag_error hf]
    | ok key => exact absurd ⟨key, hf⟩ h

theorem judge_keyOfMint_eq_ok_iff :
    judge s.keyOfMint committed = .ok key ↔
      Script.IsSpend s.bytes key ∧ key.isValid = true ∧ committed key = true := by
  rw [judge_eq_ok_iff, Script.keyOfMint_eq_ok_iff_grammar]

/-! ## The script and the output of a coinstake -/

/-- A coinstake has an input and a second output. -/
theorem exists_of_coinstake {stake : Transaction} (h : b.coinstake? = some stake) :
    ∃ input output, stake.inputs.head? = some input ∧ stake.outputs[1]? = some output := by
  have hstake : stake.isCoinstake = true := by
    simp only [coinstake?, Option.filter_eq_some_iff] at h
    exact h.2
  unfold Transaction.isCoinstake at hstake
  split at hstake
  · rename_i input _ _ output _ hi ho
    exact ⟨input, output, by rw [hi]; rfl, by rw [ho]; rfl⟩
  · cases hstake

/-- A template in the second output of a coinstake is what the block designates, if the classifier knows it. -/
theorem designated_of_template {stake : Transaction} {output : TxOut} {extended : Bool} (h : b.coinstake? = some stake)
    (ho : stake.outputs[1]? = some output) (ht : kind.template? = some output.script)
    (he : kind.isExtended = true → extended = true) : b.designated (.of extended) = .ok kind := by
  have hk : kind ≠ .nonStandard := by
    rintro rfl
    cases ht
  refine designated_eq_ok_iff.2 ⟨output, ?_, (Script.Kind.of_eq_iff hk).2 ⟨ht, he⟩⟩
  rw [designatedOutput?, h]
  exact ho

/-! ## Main theorem -/

/-- For each kind of output that commits to a hash, which scripts name which signer, and what is wrong with the
others. The parts of a script are told by their lengths alone. Read by offsets, every script comes to the same,
so there is always a slice to take the key from. -/
theorem recoverSigner_grammar {stake : Transaction} (h : b.coinstake? = some stake) :
    ∃ input output, stake.inputs.head? = some input ∧ stake.outputs[1]? = some output ∧
      let u := input.scriptSig.bytes
      (∀ extended id, output.script = .payToKeyId id →
        (∀ key, b.recoverSigner (.of extended) = .ok key ↔
          Script.IsSignatureKey u key ∧ key.isValid = true ∧ key.id = id) ∧
        (b.recoverSigner (.of extended) = .error .signatureOnly ↔ ∃ n rest, u = n :: rest ∧ u.length ≤ 1 + n.toNat) ∧
        (b.recoverSigner (.of extended) = .error .malformed ↔
          u = [] ∨ ∃ n rest, u = n :: rest ∧ u.length = 2 + n.toNat) ∧
        (b.recoverSigner (.of extended) = .error .keyMismatch ↔
          ∃ key, (Script.IsSignatureKey u key ∧ key.bytes ≠ []) ∧ key.id ≠ id) ∧
        ∀ key, b.recoverSigner (.of extended) = .error (.invalidKey key) ↔
          (Script.IsSignatureKey u key ∧ key.bytes ≠ []) ∧ key.id = id ∧ key.isValid = false) ∧
      (∀ staker owner, output.script = .coldStake staker owner →
        (∀ key, b.recoverSigner (.of true) = .ok key ↔
          Script.IsSignatureFlagKey u key ∧ key.isValid = true ∧ (key.id = staker ∨ key.id = owner)) ∧
        (b.recoverSigner (.of true) = .error .malformed ↔ ¬ ∃ key, Script.IsSignatureFlagKey u key ∧ key.bytes ≠ [])) ∧
      (∀ serial : Hash256, output.script.bytes = 0xc1 :: 0x20 :: serial.toList →
        ∀ key, b.recoverSigner (.of true) = .ok key ↔
          Script.IsSpend u key ∧ key.isValid = true ∧ hash256 key.bytes = serial) ∧
      Script.keyAfterSignatureAt u = input.scriptSig.keyAfterSignature.map some ∧
      Script.keyAfterFlagAt u = input.scriptSig.keyAfterFlag.map some ∧
      Script.keyOfMintAt u = input.scriptSig.keyOfMint := by
  obtain ⟨input, output, hi, ho⟩ := exists_of_coinstake h
  have hs : b.stakeScript = .ok input.scriptSig := stakeScript_eq_ok_iff.2 ⟨stake, input, h, hi, rfl⟩
  refine ⟨input, output, hi, ho, ?_, ?_, ?_, Script.keyAfterSignatureAt_eq _, Script.keyAfterFlagAt_eq _,
    Script.keyOfMintAt_eq _⟩
  · intro extended id hout
    have hd : b.designated (.of extended) = .ok (.payToKeyId id) :=
      designated_of_template h ho (Script.Kind.template?_payToKeyId_eq_some_iff.2 hout) nofun
    rw [recoverSigner_eq_judge Script.keyAfterSignature (fun key => key.id == id) hd hs rfl]
    refine ⟨fun key => ?_, judge_keyAfterSignature_eq_signatureOnly_iff, judge_keyAfterSignature_eq_malformed_iff, ?_,
      fun key => ?_⟩
    · rw [judge_keyAfterSignature_eq_ok_iff, beq_iff_eq]
    · simp only [judge_keyAfterSignature_eq_keyMismatch_iff, beq_eq_false_iff_ne]
    · rw [judge_keyAfterSignature_eq_invalidKey_iff, beq_iff_eq]
  · intro staker owner hout
    have hd : b.designated (.of true) = .ok (.coldStake staker owner) :=
      designated_of_template h ho (Script.Kind.template?_coldStake_eq_some_iff.2 hout) fun _ => rfl
    rw [recoverSigner_eq_judge Script.keyAfterFlag (fun key => key.id == staker || key.id == owner) hd hs rfl]
    refine ⟨fun key => ?_, judge_keyAfterFlag_eq_malformed_iff⟩
    rw [judge_keyAfterFlag_eq_ok_iff, Bool.or_eq_true, beq_iff_eq, beq_iff_eq]
  · intro serial hout key
    have hd : b.designated (.of true) = .ok (.mint serial) :=
      designated_of_template h ho (Script.Kind.template?_mint_eq_some_iff.2 hout) fun _ => rfl
    rw [recoverSigner_eq_judge Script.keyOfMint (fun key => hash256 key.bytes == serial) hd hs rfl,
      judge_keyOfMint_eq_ok_iff, beq_iff_eq]

/-- An output of each kind with a script that unlocks it, and a script for a cold stake that ends where the flag
should be. -/
theorem recoverSigner_grammar_of_each_kind :
    let key : PublicKey := ⟨List.replicate 32 9⟩
    let stake (lock : Script) (u : Bytes) : Transaction := ⟨1, [⟨⟨0, 1⟩, ⟨u⟩, 0⟩], [⟨0, .empty⟩, ⟨5, lock⟩], 0⟩
    let b (lock : Script) (u : Bytes) : Block := ⟨default, [.coinbase 9 [], stake lock u], [], []⟩
    (∀ lock u, (b lock u).coinstake? = some (stake lock u)) ∧
      ((b (.payToKeyId key.id) ([2, 7, 7, 32] ++ key.bytes)).recoverSigner (.of false) = .ok key ∧
        Script.IsSignatureKey ([2, 7, 7, 32] ++ key.bytes) key) ∧
      ((b (.coldStake 0 key.id) ([2, 7, 7, 1, 0, 32] ++ key.bytes)).recoverSigner (.of true) = .ok key ∧
        Script.IsSignatureFlagKey ([2, 7, 7, 1, 0, 32] ++ key.bytes) key) ∧
      ((b (.coldStake 0 key.id) [2, 7, 7, 1]).recoverSigner (.of true) = .error .malformed ∧
        ¬ ∃ key, Script.IsSignatureFlagKey [2, 7, 7, 1] key ∧ key.bytes ≠ []) ∧
      (b (.mint key) ([0xc2, 32] ++ key.bytes ++ [5])).recoverSigner (.of true) = .ok key ∧
        Script.IsSpend ([0xc2, 32] ++ key.bytes ++ [5]) key := by
  intro key stake b
  have hstake : ∀ lock u, (b lock u).coinstake? = some (stake lock u) := fun _ _ => rfl
  refine ⟨hstake, ?_, ?_, ?_, ?_⟩
  · obtain ⟨_, _, ⟨⟩, ⟨⟩, hkeyId, -⟩ := recoverSigner_grammar (hstake (.payToKeyId key.id) ([2, 7, 7, 32] ++ key.bytes))
    have hok : (b (.payToKeyId key.id) ([2, 7, 7, 32] ++ key.bytes)).recoverSigner (.of false) = .ok key := by
      decide +kernel
    exact ⟨hok, (((hkeyId false key.id rfl).1 key).1 hok).1⟩
  · obtain ⟨_, _, ⟨⟩, ⟨⟩, -, hcold, -⟩ :=
      recoverSigner_grammar (hstake (.coldStake 0 key.id) ([2, 7, 7, 1, 0, 32] ++ key.bytes))
    have hok : (b (.coldStake 0 key.id) ([2, 7, 7, 1, 0, 32] ++ key.bytes)).recoverSigner (.of true) = .ok key := by
      decide +kernel
    exact ⟨hok, (((hcold 0 key.id rfl).1 key).1 hok).1⟩
  · obtain ⟨_, _, ⟨⟩, ⟨⟩, -, hcold, -⟩ := recoverSigner_grammar (hstake (.coldStake 0 key.id) [2, 7, 7, 1])
    have herror : (b (.coldStake 0 key.id) [2, 7, 7, 1]).recoverSigner (.of true) = .error .malformed := by
      decide +kernel
    exact ⟨herror, (hcold 0 key.id rfl).2.1 herror⟩
  · obtain ⟨_, _, ⟨⟩, ⟨⟩, -, -, hmint, -⟩ := recoverSigner_grammar (hstake (.mint key) ([0xc2, 32] ++ key.bytes ++ [5]))
    have hok : (b (.mint key) ([0xc2, 32] ++ key.bytes ++ [5])).recoverSigner (.of true) = .ok key := by
      decide +kernel
    have hlock : (Script.Kind.mint (hash256 key.bytes)).template? = some (.mint key) := rfl
    exact ⟨hok, ((hmint _ (Script.Kind.template?_mint_eq_some_iff.1 hlock) key).1 hok).1⟩

end Block

end AuditChain
