import AuditChain.Proofs.Checks
import AuditChain.Proofs.Scripts
/-!
# The signer is one that the block commits to

A key that is recovered from a block is usable, and the designated output is a locking template made
for it. Where the output commits to a hash only, the key stands in the unlocking script of the
coinstake's first input.
-/

namespace AuditChain

theorem PublicKey.length_of_isValid {key : PublicKey} (h : key.isValid = true) : key.bytes.length = PublicKey.size := by
  unfold PublicKey.isValid PublicKey.point? FixedBytes.ofList? at h
  by_contra hn
  simp [hn] at h

namespace Block

variable {classify : Script.Classifier} {b : Block} {key : PublicKey} {kind : Script.Kind}

/-! ## The designated output -/

/-- The output that names the signer: the coinstake's second one, or without a coinstake the first of the
coinbase with a locking script that the classifier knows. -/
def designatedOutput? (classify : Script.Classifier) (b : Block) : Option TxOut :=
  match b.coinstake? with
  | some stake => stake.outputs[1]?
  | none => b.coinbase?.bind fun coinbase => coinbase.outputs.find? fun output => classify output.script ≠ .nonStandard

theorem firstStandard_eq (outputs : List TxOut) :
    firstStandard classify outputs =
      (outputs.find? fun output => classify output.script ≠ .nonStandard).map fun output => classify output.script := by
  unfold firstStandard
  induction outputs with
  | nil => rfl
  | cons output outputs ih =>
    rw [List.findSome?_cons, List.find?_cons]
    by_cases h : classify output.script = .nonStandard
    · simpa [h] using ih
    · simp [h]

theorem designated_eq_ok_iff :
    b.designated classify = .ok kind ↔
      ∃ output, b.designatedOutput? classify = some output ∧ classify output.script = kind := by
  unfold designated designatedOutput?
  cases b.coinstake? with
  | some stake =>
    dsimp only
    cases stake.outputs[1]? <;> simp
  | none =>
    cases b.coinbase? with
    | none => simp
    | some coinbase =>
      simp only [Option.bind_some, firstStandard_eq]
      cases coinbase.outputs.find? fun output => classify output.script ≠ .nonStandard <;> simp

/-! ## The key that an output asks for -/

/-- The unlocking script of the coinstake's first input. -/
theorem stakeScript_eq_ok_iff {s : Script} :
    b.stakeScript = .ok s ↔
      ∃ stake input, b.coinstake? = some stake ∧ stake.inputs.head? = some input ∧ input.scriptSig = s := by
  unfold stakeScript
  cases b.coinstake? with
  | none => simp
  | some stake =>
    cases hi : stake.inputs.head? <;> simp [hi]

theorem matching_eq_ok_iff {found : PublicKey} {committed : Bool} :
    matching found committed = .ok key ↔ committed = true ∧ found = key := by
  cases committed <;> simp [matching]

/-- A key is read from the unlocking script and compared with what the output commits to. -/
theorem shown_eq_ok_iff {find : Script → Except RecoveryError PublicKey} {committed : PublicKey → Bool} :
    (do let found ← find (← b.stakeScript); matching found (committed found)) = .ok key ↔
      ∃ s, b.stakeScript = .ok s ∧ find s = .ok key ∧ committed key = true := by
  simp only [bind_eq_ok_iff, matching_eq_ok_iff]
  constructor
  · rintro ⟨s, hs, _, hk, hc, rfl⟩
    exact ⟨s, hs, hk, hc⟩
  · rintro ⟨s, hs, hk, hc⟩
    exact ⟨s, hs, key, hk, hc, rfl⟩

theorem namedKey_payToKeyId_eq_ok_iff {id : KeyId} :
    b.namedKey (.payToKeyId id) = .ok key ↔
      ∃ s, b.stakeScript = .ok s ∧ s.keyAfterSignature = .ok key ∧ key.id = id := by
  simp only [namedKey, shown_eq_ok_iff, beq_iff_eq]

theorem namedKey_coldStake_eq_ok_iff {staker owner : KeyId} :
    b.namedKey (.coldStake staker owner) = .ok key ↔
      ∃ s, b.stakeScript = .ok s ∧ s.keyAfterFlag = .ok key ∧ (key.id = staker ∨ key.id = owner) := by
  simp only [namedKey, shown_eq_ok_iff, Bool.or_eq_true, beq_iff_eq]

theorem namedKey_mint_eq_ok_iff {serial : Hash256} :
    b.namedKey (.mint serial) = .ok key ↔
      ∃ s, b.stakeScript = .ok s ∧ s.keyOfMint = .ok key ∧ hash256 key.bytes = serial := by
  simp only [namedKey, shown_eq_ok_iff, beq_iff_eq]

/-- The signer is the key that the designated output asks for, if that key is usable. -/
theorem recoverSigner_eq_ok_iff :
    b.recoverSigner classify = .ok key ↔
      ∃ kind, b.designated classify = .ok kind ∧ b.namedKey kind = .ok key ∧ key.isValid = true := by
  simp only [recoverSigner, bind_eq_ok_iff]
  constructor
  · rintro ⟨kind, hd, found, hn, h⟩
    split at h
    · obtain rfl := Except.ok.inj h
      exact ⟨kind, hd, hn, ‹_›⟩
    · cases h
  · rintro ⟨kind, hd, hn, hv⟩
    exact ⟨kind, hd, key, hn, by rw [if_pos hv]; rfl⟩

theorem isValid_of_recoverSigner (h : b.recoverSigner classify = .ok key) : key.isValid = true := by
  obtain ⟨_, -, -, hv⟩ := recoverSigner_eq_ok_iff.1 h
  exact hv

/-! ## Keys that are shown -/

/-- The bytes of the key stand in the unlocking script of the coinstake's first input. -/
def Shows (b : Block) (key : PublicKey) : Prop :=
  ∃ stake input, b.coinstake? = some stake ∧ stake.inputs.head? = some input ∧ key.bytes <:+: input.scriptSig.bytes

theorem shows_of_stakeScript {s : Script} (before after : Bytes) (h : b.stakeScript = .ok s)
    (hs : s.bytes = before ++ key.bytes ++ after) : b.Shows key := by
  obtain ⟨stake, input, hstake, hinput, rfl⟩ := stakeScript_eq_ok_iff.1 h
  exact ⟨stake, input, hstake, hinput, before, after, hs.symm⟩

theorem shows_of_namedKey (h : b.namedKey kind = .ok key) (hk : kind ≠ .payToKey key) : b.Shows key := by
  cases kind with
  | payToKey found =>
    obtain rfl : found = key := Except.ok.inj h
    exact absurd rfl hk
  | payToKeyId id =>
    obtain ⟨s, hs, hkey, -⟩ := namedKey_payToKeyId_eq_ok_iff.1 h
    obtain ⟨n, signature, b, hbs, -, -⟩ := Script.keyAfterSignature_eq_ok_iff.1 hkey
    exact shows_of_stakeScript (n :: (signature ++ [b])) [] hs (by simp [hbs])
  | coldStake staker owner =>
    obtain ⟨s, hs, hkey, -⟩ := namedKey_coldStake_eq_ok_iff.1 h
    obtain ⟨n, signature, m, flag, b, hbs, -, -, -⟩ := Script.keyAfterFlag_eq_ok_iff.1 hkey
    exact shows_of_stakeScript (n :: (signature ++ m :: (flag ++ [b]))) [] hs (by simp [hbs])
  | mint serial =>
    obtain ⟨s, hs, hkey, -⟩ := namedKey_mint_eq_ok_iff.1 h
    obtain ⟨n, rest, hbs, -⟩ := Script.keyOfMint_eq_ok_iff.1 hkey
    exact shows_of_stakeScript [Script.Op.spendMint, n] rest hs (by simp [hbs])
  | nonStandard => cases h

/-! ## Main theorem -/

/-- A recovered key is usable, and the designated output is a template made for it, where a cold stake
and a mint count only for an extended classifier. Unless the output holds the key itself, the
coinstake shows it. -/
theorem recoverSigner_sound {extended : Bool} (h : b.recoverSigner (.of extended) = .ok key) :
    key.isValid = true ∧ ∃ output, b.designatedOutput? (.of extended) = some output ∧
      (output.script = .payToKey key ∨
        b.Shows key ∧
          (output.script = .payToKeyId key.id ∨
            extended = true ∧
              ((∃ staker owner, output.script = .coldStake staker owner ∧ (key.id = staker ∨ key.id = owner)) ∨
                output.script = .mint key))) := by
  obtain ⟨kind, hd, hn, hvalid⟩ := recoverSigner_eq_ok_iff.1 h
  obtain ⟨output, hout, hkind⟩ := designated_eq_ok_iff.1 hd
  have hstandard : kind ≠ .nonStandard := by
    rintro rfl
    cases hn
  obtain ⟨ht, hext⟩ := (Script.Kind.of_eq_iff hstandard).1 hkind
  refine ⟨hvalid, output, hout, ?_⟩
  cases kind with
  | payToKey found =>
    obtain rfl : found = key := Except.ok.inj hn
    simp only [Script.Kind.template?, Option.ite_none_right_eq_some, Option.some.injEq] at ht
    exact .inl ht.2.symm
  | payToKeyId id =>
    obtain ⟨-, -, -, rfl⟩ := namedKey_payToKeyId_eq_ok_iff.1 hn
    exact .inr ⟨shows_of_namedKey hn (by simp), .inl (Option.some.inj ht).symm⟩
  | coldStake staker owner =>
    obtain ⟨-, -, -, hid⟩ := namedKey_coldStake_eq_ok_iff.1 hn
    exact .inr ⟨shows_of_namedKey hn (by simp), .inr ⟨hext rfl, .inl ⟨staker, owner, (Option.some.inj ht).symm, hid⟩⟩⟩
  | mint serial =>
    obtain ⟨-, -, -, rfl⟩ := namedKey_mint_eq_ok_iff.1 hn
    exact .inr ⟨shows_of_namedKey hn (by simp), .inr ⟨hext rfl, .inr (Option.some.inj ht).symm⟩⟩
  | nonStandard => exact absurd rfl hstandard

/-- A cold stake that its owner unlocked. -/
theorem recoverSigner_sound_owner :
    let key : PublicKey := ⟨List.replicate 32 9⟩
    let unlock : Script := .unlockColdStake [7, 7] false key
    let stake : Transaction := ⟨1, [⟨⟨0, 1⟩, unlock, 0⟩], [⟨0, .empty⟩, ⟨5, .coldStake 0 key.id⟩], 0⟩
    let b : Block := ⟨default, [.coinbase 9 [], stake], [], []⟩
    b.recoverSigner (.of true) = .ok key ∧ key.isValid = true ∧
      ∃ output, b.designatedOutput? (.of true) = some output ∧
        (output.script = .payToKey key ∨
          b.Shows key ∧
            (output.script = .payToKeyId key.id ∨
              true = true ∧
                ((∃ staker owner, output.script = .coldStake staker owner ∧ (key.id = staker ∨ key.id = owner)) ∨
                  output.script = .mint key))) := by
  intro key unlock stake b
  have h : b.recoverSigner (.of true) = .ok key := by decide +kernel
  exact ⟨h, recoverSigner_sound h⟩

end Block

end AuditChain
