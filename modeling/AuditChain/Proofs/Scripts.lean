import Mathlib.Data.List.Basic
import AuditChain.Block.Signer
import AuditChain.Proofs.Checks
/-!
# Scripts that name a key

A locking script is recognised as a template just when it is that template, byte for byte. The keys
in unlocking scripts lie behind pushes of which only the lengths are looked at, so a key is found just
where such lengths lead.
-/

namespace AuditChain.Script

/-! ## Pushes -/

theorem push_of_length_le {data : Bytes} (h : data.length ≤ 75) :
    push data = UInt8.ofNat data.length :: data := by
  unfold push
  rw [if_pos h]
  rfl

theorem push_fixed {n : Nat} (h : n ≤ 75) (b : FixedBytes n) : push b.toList = UInt8.ofNat n :: b.toList := by
  rw [push_of_length_le (by rw [b.length_toList]; exact h), b.length_toList]

/-! ## Locking templates -/

namespace Kind

/-- The locking script that has the given key material. -/
def template? : Kind → Option Script
  | payToKey key => if key.bytes.length = PublicKey.size then some (Script.payToKey key) else none
  | payToKeyId id => some (Script.payToKeyId id)
  | coldStake staker owner => some (Script.coldStake staker owner)
  | mint serial => some ⟨Op.mint :: push serial.toList⟩
  | nonStandard => none

/-- Only an extended classifier knows the template. -/
def isExtended : Kind → Bool
  | coldStake _ _ | mint _ => true
  | _ => false

theorem between_eq_some_iff {head tail bs : Bytes} {n : Nat} {x : FixedBytes n} :
    between head n tail bs = some x ↔ bs = head ++ (x.toList ++ tail) := by
  unfold between
  constructor
  · intro h
    split at h
    · rename_i hparts
      obtain ⟨hhead, htail⟩ := hparts
      have hx := FixedBytes.ofList?_eq_some_iff.1 h
      rw [← hhead, ← htail, ← hx, ← List.drop_drop, List.take_append_drop, List.take_append_drop]
    · cases h
  · rintro rfl
    have htail : (head ++ (x.toList ++ tail)).drop (head.length + n) = tail := by
      rw [← List.append_assoc]
      exact List.drop_left' (by rw [List.length_append, x.length_toList])
    rw [if_pos ⟨List.take_left, htail⟩, List.drop_left, List.take_left' x.length_toList]
    exact FixedBytes.ofList?_toList x

/-- A recogniser knows the scripts that differ in the bytes between `head` and `tail`. -/
theorem map_between_eq_some_iff {head tail bs : Bytes} {n : Nat} {f : FixedBytes n → Kind}
    {lock : FixedBytes n → Script} {kind : Kind} (hlock : ∀ x, (lock x).bytes = head ++ (x.toList ++ tail)) :
    (between head n tail bs).map f = some kind ↔ ∃ x, kind = f x ∧ lock x = ⟨bs⟩ := by
  simp only [Option.map_eq_some_iff, between_eq_some_iff]
  constructor
  · rintro ⟨x, rfl, rfl⟩
    exact ⟨x, rfl, congrArg Script.mk (hlock x)⟩
  · rintro ⟨x, rfl, h⟩
    exact ⟨x, by rw [← hlock x, h], rfl⟩

theorem payToKey?_eq_some_iff {bs : Bytes} {kind : Kind} :
    payToKey? bs = some kind ↔ ∃ key, kind = payToKey key ∧ kind.template? = some ⟨bs⟩ := by
  have bytes : ∀ x : FixedBytes 32, (Script.payToKey ⟨x.toList⟩).bytes = [32] ++ (x.toList ++ [Op.checkSig]) := by
    intro x
    simp [Script.payToKey, push_fixed]
  rw [payToKey?, map_between_eq_some_iff bytes]
  constructor
  · rintro ⟨x, rfl, h⟩
    exact ⟨_, rfl, by rw [template?, if_pos x.length_toList, h]⟩
  · rintro ⟨key, rfl, h⟩
    simp only [template?, Option.ite_none_right_eq_some, Option.some.injEq] at h
    exact ⟨⟨key.bytes, h.1⟩, rfl, h.2⟩

theorem payToKeyId?_eq_some_iff {bs : Bytes} {kind : Kind} :
    payToKeyId? bs = some kind ↔ ∃ id, kind = payToKeyId id ∧ kind.template? = some ⟨bs⟩ := by
  have bytes : ∀ id, (Script.payToKeyId id).bytes =
      [Op.dup, Op.hash160, 20] ++ (id.toList ++ [Op.equalVerify, Op.checkSig]) := by
    intro id
    simp [Script.payToKeyId, push_fixed]
  rw [payToKeyId?, map_between_eq_some_iff bytes]
  constructor
  · rintro ⟨id, rfl, h⟩
    exact ⟨id, rfl, congrArg some h⟩
  · rintro ⟨id, rfl, h⟩
    exact ⟨id, rfl, Option.some.inj h⟩

theorem mint?_eq_some_iff {bs : Bytes} {kind : Kind} :
    mint? bs = some kind ↔ ∃ serial, kind = mint serial ∧ kind.template? = some ⟨bs⟩ := by
  have bytes : ∀ serial : Hash256,
      (Script.mk (Op.mint :: push serial.toList)).bytes = [Op.mint, 32] ++ (serial.toList ++ []) := by
    intro serial
    simp [push_fixed]
  rw [mint?, map_between_eq_some_iff bytes]
  constructor
  · rintro ⟨serial, rfl, h⟩
    exact ⟨serial, rfl, congrArg some h⟩
  · rintro ⟨serial, rfl, h⟩
    exact ⟨serial, rfl, Option.some.inj h⟩

theorem coldStake?_eq_some_iff {bs : Bytes} {kind : Kind} :
    coldStake? bs = some kind ↔ ∃ staker owner, kind = coldStake staker owner ∧ kind.template? = some ⟨bs⟩ := by
  have bytes : ∀ staker owner, (Script.coldStake staker owner).bytes =
      [Op.dup, Op.hash160, Op.rot, Op.ifTrue, Op.checkColdStake, 20] ++
        ((staker.toList ++ ([Op.otherwise, 20] ++ owner.toList)) ++ [Op.endIf, Op.equalVerify, Op.checkSig]) := by
    intro staker owner
    simp [Script.coldStake, push_fixed]
  simp only [coldStake?, Option.bind_eq_bind, Option.bind_eq_some_iff, between_eq_some_iff,
    FixedBytes.ofList?_eq_some_iff]
  constructor
  · rintro ⟨ids, rfl, staker, hs, owner, ho, h⟩
    obtain rfl := Option.some.inj h
    refine ⟨staker, owner, rfl, ?_⟩
    rw [List.append_nil] at ho
    rw [template?, ← List.take_append_drop 20 ids.toList, hs, ho, ← bytes staker owner]
  · rintro ⟨staker, owner, rfl, h⟩
    simp only [template?, Option.some.injEq] at h
    refine ⟨⟨staker.toList ++ ([Op.otherwise, 20] ++ owner.toList), ?_⟩, ?_, staker, ?_, owner, ?_, rfl⟩
    · simp [staker.length_toList, owner.length_toList]
    · rw [← bytes staker owner, h]
    · exact List.take_left' staker.length_toList
    · rw [List.append_nil]
      exact List.drop_left' staker.length_toList

/-- The bytes of a template tell which one it is. -/
theorem length_template {kind : Kind} {s : Script} (h : kind.template? = some s) :
    s.bytes.length = match kind with
      | payToKey _ | mint _ => 34
      | payToKeyId _ => 25
      | coldStake _ _ => 51
      | nonStandard => 0 := by
  cases kind with
  | payToKey key =>
    simp only [template?, Option.ite_none_right_eq_some, Option.some.injEq] at h
    obtain ⟨hl, rfl⟩ := h
    show (push key.bytes ++ [Op.checkSig]).length = 34
    rw [push_of_length_le (by rw [hl]; decide), List.length_append, List.length_cons, hl]
    rfl
  | payToKeyId id =>
    obtain rfl := Option.some.inj h
    simp [Script.payToKeyId, push_fixed, id.length_toList]
  | coldStake staker owner =>
    obtain rfl := Option.some.inj h
    simp [Script.coldStake, push_fixed, staker.length_toList, owner.length_toList]
  | mint serial =>
    obtain rfl := Option.some.inj h
    simp [push_fixed, serial.length_toList]
  | nonStandard => cases h

/-- A payment to a key starts with the length of a key, and a mint with its own opcode. -/
theorem template_ne_mint {key : PublicKey} {serial : Hash256} {s : Script} (h : (payToKey key).template? = some s) :
    (mint serial).template? ≠ some s := by
  simp only [template?, Option.ite_none_right_eq_some, Option.some.injEq] at h
  obtain ⟨hl, rfl⟩ := h
  rw [Script.payToKey, push_of_length_le (by rw [hl]; decide), hl]
  intro hm
  have hbytes := congrArg Script.bytes (Option.some.inj hm)
  exact absurd (List.cons.inj hbytes).1 (by decide)

/-- No script is an instance of two templates. -/
theorem template?_inj {kind kind' : Kind} {s : Script} (h : kind.template? = some s) (h' : kind'.template? = some s) :
    kind = kind' := by
  have hlen := (length_template h).symm.trans (length_template h')
  cases kind with
  | payToKey key =>
    cases kind' with
    | payToKey key' =>
      have hfound := payToKey?_eq_some_iff.2 ⟨key, rfl, h⟩
      exact Option.some.inj (hfound.symm.trans (payToKey?_eq_some_iff.2 ⟨key', rfl, h'⟩))
    | mint serial => exact absurd h' (template_ne_mint h)
    | _ => cases hlen
  | payToKeyId id =>
    cases kind' with
    | payToKeyId id' =>
      have hfound := payToKeyId?_eq_some_iff.2 ⟨id, rfl, h⟩
      exact Option.some.inj (hfound.symm.trans (payToKeyId?_eq_some_iff.2 ⟨id', rfl, h'⟩))
    | _ => cases hlen
  | coldStake staker owner =>
    cases kind' with
    | coldStake staker' owner' =>
      have hfound := coldStake?_eq_some_iff.2 ⟨staker, owner, rfl, h⟩
      exact Option.some.inj (hfound.symm.trans (coldStake?_eq_some_iff.2 ⟨staker', owner', rfl, h'⟩))
    | _ => cases hlen
  | mint serial =>
    cases kind' with
    | mint serial' =>
      have hfound := mint?_eq_some_iff.2 ⟨serial, rfl, h⟩
      exact Option.some.inj (hfound.symm.trans (mint?_eq_some_iff.2 ⟨serial', rfl, h'⟩))
    | payToKey key => exact absurd h (template_ne_mint h')
    | _ => cases hlen
  | nonStandard => cases h

/-- What the recognisers find together, the first that knows the script before the others. -/
def found? (extended : Bool) (bs : Bytes) : Option Kind :=
  let basic := (payToKey? bs).or (payToKeyId? bs)
  if extended then (basic.or (coldStake? bs)).or (mint? bs) else basic

theorem template_of_found {extended : Bool} {bs : Bytes} {kind : Kind} (h : found? extended bs = some kind) :
    kind.template? = some ⟨bs⟩ ∧ (kind.isExtended = true → extended = true) := by
  have basic : (payToKey? bs).or (payToKeyId? bs) = some kind →
      kind.template? = some ⟨bs⟩ ∧ (kind.isExtended = true → extended = true) := by
    intro hb
    rcases Option.or_eq_some_iff.1 hb with hb | ⟨-, hb⟩
    · obtain ⟨key, rfl, ht⟩ := payToKey?_eq_some_iff.1 hb
      exact ⟨ht, nofun⟩
    · obtain ⟨id, rfl, ht⟩ := payToKeyId?_eq_some_iff.1 hb
      exact ⟨ht, nofun⟩
  cases extended with
  | false => exact basic h
  | true =>
    rcases Option.or_eq_some_iff.1 h with h | ⟨-, h⟩
    · rcases Option.or_eq_some_iff.1 h with h | ⟨-, h⟩
      · exact basic h
      · obtain ⟨staker, owner, rfl, ht⟩ := coldStake?_eq_some_iff.1 h
        exact ⟨ht, fun _ => rfl⟩
    · obtain ⟨serial, rfl, ht⟩ := mint?_eq_some_iff.1 h
      exact ⟨ht, fun _ => rfl⟩

theorem isSome_found {extended : Bool} {bs : Bytes} {kind : Kind} (h : kind.template? = some ⟨bs⟩)
    (he : kind.isExtended = true → extended = true) : (found? extended bs).isSome = true := by
  cases kind with
  | payToKey key =>
    have hr := payToKey?_eq_some_iff.2 ⟨key, rfl, h⟩
    cases extended <;> simp [found?, hr]
  | payToKeyId id =>
    have hr := payToKeyId?_eq_some_iff.2 ⟨id, rfl, h⟩
    cases extended <;> simp [found?, hr]
  | coldStake staker owner =>
    have hr := coldStake?_eq_some_iff.2 ⟨staker, owner, rfl, h⟩
    simp [found?, hr, he rfl]
  | mint serial =>
    have hr := mint?_eq_some_iff.2 ⟨serial, rfl, h⟩
    simp [found?, hr, he rfl]
  | nonStandard => cases h

/-- A classifier finds a template just where its script is, if it knows the template at all. -/
theorem of_eq_iff {extended : Bool} {s : Script} {kind : Kind} (hk : kind ≠ nonStandard) :
    Kind.of extended s = kind ↔ kind.template? = some s ∧ (kind.isExtended = true → extended = true) := by
  have hof : Kind.of extended s = (found? extended s.bytes).getD nonStandard := rfl
  rw [hof]
  constructor
  · intro h
    cases hf : found? extended s.bytes with
    | none =>
      rw [hf] at h
      exact absurd h.symm hk
    | some k =>
      rw [hf] at h
      obtain rfl : k = kind := h
      exact template_of_found hf
  · rintro ⟨ht, he⟩
    obtain ⟨k, hf⟩ := Option.isSome_iff_exists.1 (isSome_found ht he)
    rw [hf]
    exact template?_inj (template_of_found hf).1 ht

theorem of_coldStake (staker owner : KeyId) : Kind.of true (Script.coldStake staker owner) = coldStake staker owner := by
  have hk : coldStake staker owner ≠ nonStandard := nofun
  exact (of_eq_iff hk).2 ⟨rfl, fun _ => rfl⟩

end Kind

/-! ## Keys in unlocking scripts -/

theorem skipPush_eq_ok_iff {bs rest : Bytes} :
    skipPush bs = .ok rest ↔ ∃ n data, bs = n :: (data ++ rest) ∧ data.length = n.toNat ∧ 2 ≤ rest.length := by
  cases bs with
  | nil => simp [skipPush]
  | cons n tail =>
    simp only [skipPush]
    constructor
    · intro h
      split at h
      · cases h
      · rename_i hlen
        obtain rfl := Except.ok.inj h
        have hn : n.toNat ≤ tail.length := by
          rw [List.length_drop] at hlen
          omega
        refine ⟨n, tail.take n.toNat, ?_, ?_, by omega⟩
        · rw [List.take_append_drop]
        · rw [List.length_take, Nat.min_eq_left hn]
    · rintro ⟨n', data, hbs, hdata, hlen⟩
      obtain ⟨rfl, rfl⟩ := List.cons.inj hbs
      rw [List.drop_left' hdata, if_neg (by omega)]

/-- Behind a push there is a length byte, whatever it says, and at least one byte of the key. -/
theorem map_trailingKey_eq_ok_iff {bs : Bytes} {key : PublicKey} :
    (skipPush bs).map trailingKey = .ok key ↔
      ∃ n data b, bs = n :: (data ++ b :: key.bytes) ∧ data.length = n.toNat ∧ key.bytes ≠ [] := by
  constructor
  · intro h
    cases hskip : skipPush bs with
    | error e => simp [hskip, Except.map] at h
    | ok rest =>
      obtain ⟨n, data, hbs, hn, hlen⟩ := skipPush_eq_ok_iff.1 hskip
      rw [hskip] at h
      obtain rfl := Except.ok.inj h
      match rest, hlen with
      | b :: c :: tail, _ => exact ⟨n, data, b, hbs, hn, List.cons_ne_nil _ _⟩
  · rintro ⟨n, data, b, hbs, hn, hne⟩
    have hlen : 2 ≤ (b :: key.bytes).length := by
      have hpos := List.length_pos_of_ne_nil hne
      rw [List.length_cons]
      omega
    rw [skipPush_eq_ok_iff.2 ⟨n, data, hbs, hn, hlen⟩]
    rfl

/-- The key stands behind the signature. -/
theorem keyAfterSignature_eq_ok_iff {s : Script} {key : PublicKey} :
    s.keyAfterSignature = .ok key ↔
      ∃ n signature b, s.bytes = n :: (signature ++ b :: key.bytes) ∧ signature.length = n.toNat ∧ key.bytes ≠ [] := by
  rw [← map_trailingKey_eq_ok_iff]
  unfold keyAfterSignature
  cases hbs : s.bytes with
  | nil => rfl
  | cons n rest =>
    dsimp only
    split
    · -- A signature alone leaves no room for a key.
      rename_i hlen
      have hdrop : rest.drop n.toNat = [] := List.drop_eq_nil_of_le hlen
      simp [skipPush, hdrop, Except.map]
    · rfl

/-- The key stands behind the signature and the flag. -/
theorem keyAfterFlag_eq_ok_iff {s : Script} {key : PublicKey} :
    s.keyAfterFlag = .ok key ↔
      ∃ n signature m flag b, s.bytes = n :: (signature ++ m :: (flag ++ b :: key.bytes)) ∧
        signature.length = n.toNat ∧ flag.length = m.toNat ∧ key.bytes ≠ [] := by
  unfold keyAfterFlag
  constructor
  · intro h
    obtain ⟨afterSignature, hskip, hkey⟩ := bind_eq_ok_iff.1 h
    obtain ⟨n, signature, hbs, hn, -⟩ := skipPush_eq_ok_iff.1 hskip
    obtain ⟨m, flag, b, rfl, hm, hne⟩ := map_trailingKey_eq_ok_iff.1 hkey
    exact ⟨n, signature, m, flag, b, hbs, hn, hm, hne⟩
  · rintro ⟨n, signature, m, flag, b, hbs, hn, hm, hne⟩
    have hlen : 2 ≤ (m :: (flag ++ b :: key.bytes)).length := by
      simp only [List.length_cons, List.length_append]
      omega
    rw [skipPush_eq_ok_iff.2 ⟨n, signature, hbs, hn, hlen⟩]
    exact map_trailingKey_eq_ok_iff.2 ⟨m, flag, b, rfl, hm, hne⟩

/-- The key stands behind the opcode and its own length. -/
theorem keyOfMint_eq_ok_iff {s : Script} {key : PublicKey} :
    s.keyOfMint = .ok key ↔ ∃ n rest, s.bytes = Op.spendMint :: n :: (key.bytes ++ rest) ∧ key.bytes.length = n.toNat := by
  unfold keyOfMint
  constructor
  · intro h
    split at h
    · rename_i op n rest hbs
      split at h
      · rename_i hop
        obtain rfl := Except.ok.inj h
        refine ⟨n, rest.drop n.toNat, ?_, by simp [hop.2]⟩
        rw [hbs, hop.1, List.take_append_drop]
      · cases h
    · cases h
  · rintro ⟨n, rest, hbs, hn⟩
    rw [hbs]
    simp only [List.length_append, true_and]
    rw [if_pos (by omega), List.take_left' hn]

/-! ## The unlocking templates show their key -/

variable {signature : Bytes} {key : PublicKey}

theorem push_key (h : key.bytes.length = PublicKey.size) : push key.bytes = 32 :: key.bytes := by
  rw [push_of_length_le (by rw [h]; decide), h]
  rfl

theorem ne_nil_of_length (h : key.bytes.length = PublicKey.size) : key.bytes ≠ [] := by
  intro hnil
  rw [hnil] at h
  cases h

theorem toNat_length_byte {n : Nat} (h : n ≤ 75) : (UInt8.ofNat n).toNat = n :=
  UInt8.toNat_ofNat_of_lt' (Nat.lt_of_le_of_lt h (by decide))

theorem keyAfterSignature_unlockKeyId (hs : signature.length ≤ 75) (hk : key.bytes.length = PublicKey.size) :
    (unlockKeyId signature key).keyAfterSignature = .ok key := by
  rw [keyAfterSignature_eq_ok_iff]
  refine ⟨_, signature, 32, ?_, (toNat_length_byte hs).symm, ne_nil_of_length hk⟩
  rw [unlockKeyId, push_of_length_le hs, push_key hk, List.cons_append]

/-- The flag is pushed as a byte of its own or as nothing, and is skipped either way. -/
theorem keyAfterFlag_unlockColdStake (stakerBranch : Bool) (hs : signature.length ≤ 75)
    (hk : key.bytes.length = PublicKey.size) : (unlockColdStake signature stakerBranch key).keyAfterFlag = .ok key := by
  rw [keyAfterFlag_eq_ok_iff]
  cases stakerBranch with
  | true =>
    refine ⟨_, signature, 1, [1], 32, ?_, (toNat_length_byte hs).symm, rfl, ne_nil_of_length hk⟩
    rw [unlockColdStake, push_of_length_le hs, push_key hk, if_pos rfl, List.append_assoc]
    rfl
  | false =>
    refine ⟨_, signature, 0, [], 32, ?_, (toNat_length_byte hs).symm, rfl, ne_nil_of_length hk⟩
    rw [unlockColdStake, push_of_length_le hs, push_key hk, if_neg nofun, List.append_assoc]
    rfl

theorem keyOfMint_spendMint (proof : Bytes) (hk : key.bytes.length = PublicKey.size) :
    (spendMint key proof).keyOfMint = .ok key := by
  rw [keyOfMint_eq_ok_iff]
  refine ⟨32, push proof, ?_, hk⟩
  rw [spendMint, push_key hk, List.cons_append]

end AuditChain.Script
