import AuditChain.Proofs.Offsets
/-!
# Classification is the inverse of the templates

In a buffer a locking script is told by its length, by the bytes at fixed places and by the key material
between them. What the classifier says is what such offsets give, and a script is of a kind just when it is
that template with that key material. The kinds that an extended classifier does not know cannot hide another.
-/

namespace AuditChain.Script

/-! ## Templates by their offsets -/

/-- What a template looks like from outside: how long it is, what stands where, and where the key material is. -/
structure Layout where
  length : Nat
  fixed : List (Nat × Bytes)
  material : List (Nat × Nat)
  kind? : List Bytes → Option Kind

namespace Layout

/-- The kind of a script with this layout, and no kind for any other. Nothing is looked at in bytes of another length. -/
def read? (l : Layout) (bs : Bytes) : Option (Option Kind) :=
  if bs.length = l.length then do
    if ← standAt? bs l.fixed then return l.kind? (← slices? bs l.material) else return none
  else some none

/-- Everything that is looked at lies within the length. -/
def Within (l : Layout) : Prop :=
  (∀ p ∈ l.fixed, p.1 + p.2.length ≤ l.length) ∧ ∀ p ∈ l.material, p.1 ≤ p.2 ∧ p.2 ≤ l.length

instance (l : Layout) : Decidable l.Within := inferInstanceAs (Decidable (_ ∧ _))

def payToKey : Layout where
  length := 34
  fixed := [(0, [32]), (33, [Op.checkSig])]
  material := [(1, 33)]
  kind?
    | [key] => some (.payToKey ⟨key⟩)
    | _ => none

def payToKeyId : Layout where
  length := 25
  fixed := [(0, [Op.dup]), (1, [Op.hash160]), (2, [20]), (23, [Op.equalVerify]), (24, [Op.checkSig])]
  material := [(3, 23)]
  kind?
    | [id] => (FixedBytes.ofList? 20 id).map .payToKeyId
    | _ => none

def coldStake : Layout where
  length := 51
  fixed := [(0, [Op.dup, Op.hash160, Op.rot, Op.ifTrue, Op.checkColdStake]), (5, [20]), (26, [Op.otherwise]), (27, [20]),
    (48, [Op.endIf, Op.equalVerify, Op.checkSig])]
  material := [(6, 26), (28, 48)]
  kind?
    | [staker, owner] => do return .coldStake (← FixedBytes.ofList? 20 staker) (← FixedBytes.ofList? 20 owner)
    | _ => none

def mint : Layout where
  length := 34
  fixed := [(0, [Op.mint]), (1, [32])]
  material := [(2, 34)]
  kind?
    | [serial] => (FixedBytes.ofList? 32 serial).map .mint
    | _ => none

/-- The layouts that a classifier knows, in the order in which it tries them. -/
def known (extended : Bool) : List Layout :=
  if extended then [payToKey, payToKeyId, coldStake, mint] else [payToKey, payToKeyId]

/-- The kind of the first layout that the script has. -/
def classify? (bs : Bytes) : List Layout → Option Kind
  | [] => some .nonStandard
  | l :: rest => do
    match ← l.read? bs with
    | some kind => return kind
    | none => classify? bs rest

end Layout

namespace Layout

/-- No read of a layout goes outside the bytes. -/
theorem isSome_read? {l : Layout} (h : l.Within) (bs : Bytes) : (l.read? bs).isSome = true := by
  unfold read?
  split
  · rename_i hlen
    rw [Within, ← hlen] at h
    obtain ⟨stands, hs⟩ := Option.isSome_iff_exists.1 (isSome_standAt? h.1)
    obtain ⟨parts, hp⟩ := Option.isSome_iff_exists.1 (isSome_slices? h.2)
    rw [hs, hp]
    cases stands <;> rfl
  · rfl

theorem read?_eq_some_some_iff {l : Layout} {bs : Bytes} {kind : Kind} :
    l.read? bs = some (some kind) ↔ bs.length = l.length ∧
      (∀ p ∈ l.fixed, slice? bs p.1 (p.1 + p.2.length) = some p.2) ∧
      ∃ parts, slices? bs l.material = some parts ∧ l.kind? parts = some kind := by
  rw [← standAt?_eq_some_true_iff]
  unfold read?
  constructor
  · intro h
    split at h
    · rename_i hlen
      obtain ⟨stands, hs, h⟩ := Option.bind_eq_some_iff.1 h
      cases stands with
      | false => cases h
      | true =>
        obtain ⟨parts, hp, hk⟩ := Option.bind_eq_some_iff.1 h
        exact ⟨hlen, hs, parts, hp, Option.some.inj hk⟩
    · cases h
  · rintro ⟨hlen, hs, parts, hp, hk⟩
    rw [if_pos hlen, hs, hp]
    exact congrArg some hk

theorem payToKey_read?_iff {bs : Bytes} {kind : Kind} :
    payToKey.read? bs = some (some kind) ↔ ∃ key, kind = .payToKey key ∧ kind.template? = some ⟨bs⟩ := by
  have tiles : ∀ key : PublicKey, key.bytes.length = PublicKey.size →
      (Script.payToKey key = ⟨bs⟩ ↔ Tiles bs 0 [[32], key.bytes, [Op.checkSig]]) := fun key hsize =>
    eq_mk_iff_tiles (by rw [Script.payToKey, push_key hsize]; rfl)
  simp only [read?_eq_some_some_iff, payToKey, List.forall_mem_cons, slices?, Option.bind_eq_bind, Option.bind_eq_some_iff]
  constructor
  · rintro ⟨hlen, ⟨hfirst, hlast, -⟩, _, ⟨_, hkey, _, ⟨⟩, ⟨⟩⟩, ⟨⟩⟩
    obtain ⟨x, rfl⟩ := exists_of_slice? (n := 32) hkey
    refine ⟨⟨x.toList⟩, rfl, ?_⟩
    rw [Kind.template?, if_pos x.length_toList, Option.some.injEq, tiles _ x.length_toList]
    simp only [Tiles, x.length_toList]
    exact ⟨hfirst, hkey, hlast, hlen.symm⟩
  · rintro ⟨key, rfl, h⟩
    simp only [Kind.template?, Option.ite_none_right_eq_some, Option.some.injEq] at h
    have ht := (tiles key h.1).1 h.2
    simp only [Tiles, h.1] at ht
    exact ⟨ht.2.2.2.symm, ⟨ht.1, ht.2.2.1, List.forall_mem_nil _⟩, _, ⟨_, ht.2.1, _, rfl, rfl⟩, rfl⟩

theorem payToKeyId_read?_iff {bs : Bytes} {kind : Kind} :
    payToKeyId.read? bs = some (some kind) ↔ ∃ id, kind = .payToKeyId id ∧ kind.template? = some ⟨bs⟩ := by
  have tiles : ∀ id, Script.payToKeyId id = ⟨bs⟩ ↔
      Tiles bs 0 [[Op.dup], [Op.hash160], [20], id.toList, [Op.equalVerify], [Op.checkSig]] := fun id =>
    eq_mk_iff_tiles (by simp [Script.payToKeyId, push_fixed])
  simp only [read?_eq_some_some_iff, payToKeyId, List.forall_mem_cons, slices?, Option.bind_eq_bind,
    Option.bind_eq_some_iff]
  constructor
  · rintro ⟨hlen, ⟨h0, h1, h2, h23, h24, -⟩, _, ⟨_, hid, _, ⟨⟩, ⟨⟩⟩, hk⟩
    obtain ⟨id, rfl⟩ := exists_of_slice? (n := 20) hid
    simp only [FixedBytes.ofList?_toList, Option.map_some, Option.some.injEq] at hk
    subst hk
    refine ⟨id, rfl, congrArg some ((tiles id).2 ?_)⟩
    simp only [Tiles, id.length_toList]
    exact ⟨h0, h1, h2, hid, h23, h24, hlen.symm⟩
  · rintro ⟨id, rfl, h⟩
    have ht := (tiles id).1 (Option.some.inj h)
    simp only [Tiles, id.length_toList] at ht
    obtain ⟨h0, h1, h2, hid, h23, h24, hlen⟩ := ht
    exact ⟨hlen.symm, ⟨h0, h1, h2, h23, h24, List.forall_mem_nil _⟩, _, ⟨_, hid, _, rfl, rfl⟩, by simp⟩

theorem coldStake_read?_iff {bs : Bytes} {kind : Kind} :
    coldStake.read? bs = some (some kind) ↔
      ∃ staker owner, kind = .coldStake staker owner ∧ kind.template? = some ⟨bs⟩ := by
  have tiles : ∀ staker owner, Script.coldStake staker owner = ⟨bs⟩ ↔
      Tiles bs 0 [[Op.dup, Op.hash160, Op.rot, Op.ifTrue, Op.checkColdStake], [20], staker.toList, [Op.otherwise], [20],
        owner.toList, [Op.endIf, Op.equalVerify, Op.checkSig]] := fun staker owner =>
    eq_mk_iff_tiles (by simp [Script.coldStake, push_fixed])
  simp only [read?_eq_some_some_iff, coldStake, List.forall_mem_cons, slices?, Option.bind_eq_bind,
    Option.bind_eq_some_iff]
  constructor
  · rintro ⟨hlen, ⟨h0, h5, h26, h27, h48, -⟩, _, ⟨_, hstaker, _, ⟨_, howner, _, ⟨⟩, ⟨⟩⟩, ⟨⟩⟩, hk⟩
    obtain ⟨staker, rfl⟩ := exists_of_slice? (n := 20) hstaker
    obtain ⟨owner, rfl⟩ := exists_of_slice? (n := 20) howner
    simp only [FixedBytes.ofList?_toList, Option.bind_some] at hk
    obtain rfl := Option.some.inj hk
    refine ⟨staker, owner, rfl, congrArg some ((tiles staker owner).2 ?_)⟩
    simp only [Tiles, staker.length_toList, owner.length_toList]
    exact ⟨h0, h5, hstaker, h26, h27, howner, h48, hlen.symm⟩
  · rintro ⟨staker, owner, rfl, h⟩
    have ht := (tiles staker owner).1 (Option.some.inj h)
    simp only [Tiles, staker.length_toList, owner.length_toList] at ht
    obtain ⟨h0, h5, hstaker, h26, h27, howner, h48, hlen⟩ := ht
    exact ⟨hlen.symm, ⟨h0, h5, h26, h27, h48, List.forall_mem_nil _⟩, _,
      ⟨_, hstaker, _, ⟨_, howner, _, rfl, rfl⟩, rfl⟩, by simp⟩

theorem mint_read?_iff {bs : Bytes} {kind : Kind} :
    mint.read? bs = some (some kind) ↔ ∃ serial, kind = .mint serial ∧ kind.template? = some ⟨bs⟩ := by
  have tiles : ∀ serial : Hash256, (⟨Op.mint :: push serial.toList⟩ : Script) = ⟨bs⟩ ↔
      Tiles bs 0 [[Op.mint], [32], serial.toList] := fun serial =>
    eq_mk_iff_tiles (by simp [push_fixed])
  simp only [read?_eq_some_some_iff, mint, List.forall_mem_cons, slices?, Option.bind_eq_bind, Option.bind_eq_some_iff]
  constructor
  · rintro ⟨hlen, ⟨h0, h1, -⟩, _, ⟨_, hserial, _, ⟨⟩, ⟨⟩⟩, hk⟩
    obtain ⟨serial, rfl⟩ := exists_of_slice? (n := 32) hserial
    simp only [FixedBytes.ofList?_toList, Option.map_some] at hk
    obtain rfl := Option.some.inj hk
    refine ⟨serial, rfl, congrArg some ((tiles serial).2 ?_)⟩
    simp only [Tiles, serial.length_toList]
    exact ⟨h0, h1, hserial, hlen.symm⟩
  · rintro ⟨serial, rfl, h⟩
    have ht := (tiles serial).1 (Option.some.inj h)
    simp only [Tiles, serial.length_toList] at ht
    obtain ⟨h0, h1, hserial, hlen⟩ := ht
    exact ⟨hlen.symm, ⟨h0, h1, List.forall_mem_nil _⟩, _, ⟨_, hserial, _, rfl, rfl⟩, by simp⟩

/-- A layout that stays within the bytes and knows the kinds that a recogniser knows gives what it gives. -/
theorem read?_eq {l : Layout} {recognise : Bytes → Option Kind} (h : l.Within) {bs : Bytes}
    (hr : ∀ kind, l.read? bs = some (some kind) ↔ recognise bs = some kind) : l.read? bs = some (recognise bs) := by
  obtain ⟨found, hf⟩ := Option.isSome_iff_exists.1 (isSome_read? h bs)
  have hfound : found = recognise bs := by
    refine Option.ext fun kind => ?_
    rw [← hr kind, hf, Option.some.injEq]
  rw [hf, hfound]

theorem payToKey_read? (bs : Bytes) : payToKey.read? bs = some (Kind.payToKey? bs) :=
  read?_eq (by decide) fun _ => payToKey_read?_iff.trans Kind.payToKey?_eq_some_iff.symm

theorem payToKeyId_read? (bs : Bytes) : payToKeyId.read? bs = some (Kind.payToKeyId? bs) :=
  read?_eq (by decide) fun _ => payToKeyId_read?_iff.trans Kind.payToKeyId?_eq_some_iff.symm

theorem coldStake_read? (bs : Bytes) : coldStake.read? bs = some (Kind.coldStake? bs) :=
  read?_eq (by decide) fun _ => coldStake_read?_iff.trans Kind.coldStake?_eq_some_iff.symm

theorem mint_read? (bs : Bytes) : mint.read? bs = some (Kind.mint? bs) :=
  read?_eq (by decide) fun _ => mint_read?_iff.trans Kind.mint?_eq_some_iff.symm

theorem classify?_nil (bs : Bytes) : classify? bs [] = some .nonStandard := rfl

theorem classify?_cons {l : Layout} {rest : List Layout} {bs : Bytes} {found : Option Kind} {kind : Kind}
    (h : l.read? bs = some found) (hr : classify? bs rest = some kind) :
    classify? bs (l :: rest) = some (found.getD kind) := by
  rw [classify?, h]
  cases found
  · exact hr
  · rfl

/-- Reading by offsets always gives the kind of the script. -/
theorem classify?_known (extended : Bool) (s : Script) : classify? s.bytes (known extended) = some (Kind.of extended s) := by
  have hof : Kind.of extended s = (Kind.found? extended s.bytes).getD .nonStandard := rfl
  rw [hof]
  cases extended with
  | false =>
    have h := classify?_cons (payToKey_read? s.bytes) (classify?_cons (payToKeyId_read? s.bytes) (classify?_nil s.bytes))
    rw [← Option.getD_or] at h
    exact h
  | true =>
    have h := classify?_cons (payToKey_read? s.bytes) (classify?_cons (payToKeyId_read? s.bytes)
      (classify?_cons (coldStake_read? s.bytes) (classify?_cons (mint_read? s.bytes) (classify?_nil s.bytes))))
    rw [← Option.getD_or, ← Option.getD_or, ← Option.getD_or] at h
    exact h

end Layout

/-! ## Kinds of scripts -/

/-- A payment to a key or to the id of a key, which each classifier knows. -/
def IsBasic (s : Script) : Prop :=
  (∃ key : PublicKey, key.bytes.length = PublicKey.size ∧ s = .payToKey key) ∨ ∃ id, s = .payToKeyId id

namespace Kind

variable {extended : Bool} {s : Script}

theorem template?_payToKey_eq_some_iff {key : PublicKey} :
    (payToKey key).template? = some s ↔ key.bytes.length = PublicKey.size ∧ s = .payToKey key := by
  rw [template?, Option.ite_none_right_eq_some, Option.some.injEq, eq_comm (a := s)]

theorem template?_payToKeyId_eq_some_iff {id : KeyId} : (payToKeyId id).template? = some s ↔ s = .payToKeyId id := by
  rw [template?, Option.some.injEq, eq_comm]

theorem template?_coldStake_eq_some_iff {staker owner : KeyId} :
    (coldStake staker owner).template? = some s ↔ s = .coldStake staker owner := by
  rw [template?, Option.some.injEq, eq_comm]

theorem template?_mint_eq_some_iff {serial : Hash256} :
    (mint serial).template? = some s ↔ s.bytes = 0xc1 :: 0x20 :: serial.toList := by
  rw [template?, Option.some.injEq, push_fixed (by decide), eq_comm, ← Script.mk.injEq]
  rfl

/-- A script that no template makes, or only one that the classifier does not know. -/
theorem of_eq_nonStandard_iff :
    of extended s = nonStandard ↔ ∀ kind : Kind, kind.template? = some s → kind.isExtended = true ∧ extended = false := by
  constructor
  · intro h kind ht
    by_contra hn
    have hk : kind ≠ nonStandard := by
      rintro rfl
      cases ht
    have hof : of extended s = kind := by
      refine (of_eq_iff hk).2 ⟨ht, fun he => ?_⟩
      rw [← Bool.not_eq_false]
      exact fun hf => hn ⟨he, hf⟩
    exact hk (hof.symm.trans h)
  · intro h
    by_contra hn
    obtain ⟨ht, he⟩ := (of_eq_iff hn).1 rfl
    obtain ⟨hext, hf⟩ := h _ ht
    rw [he hext] at hf
    cases hf

theorem isBasic_iff : s.IsBasic ↔ ∃ kind : Kind, kind.template? = some s ∧ kind.isExtended = false := by
  unfold IsBasic
  constructor
  · rintro (⟨key, h⟩ | ⟨id, h⟩)
    · exact ⟨payToKey key, template?_payToKey_eq_some_iff.2 h, rfl⟩
    · exact ⟨payToKeyId id, template?_payToKeyId_eq_some_iff.2 h, rfl⟩
  · rintro ⟨kind, ht, hext⟩
    cases kind with
    | payToKey key => exact .inl ⟨key, template?_payToKey_eq_some_iff.1 ht⟩
    | payToKeyId id => exact .inr ⟨id, template?_payToKeyId_eq_some_iff.1 ht⟩
    | coldStake | mint => cases hext
    | nonStandard => cases ht

theorem of_true_eq_nonStandard_iff : of true s = nonStandard ↔
    ¬ s.IsBasic ∧ (∀ staker owner, s ≠ .coldStake staker owner) ∧
      ∀ serial : Hash256, s.bytes ≠ 0xc1 :: 0x20 :: serial.toList := by
  rw [of_eq_nonStandard_iff]
  constructor
  · intro h
    have none : ∀ kind : Kind, kind.template? ≠ some s := fun kind ht => absurd (h kind ht).2 nofun
    refine ⟨fun hb => ?_, fun staker owner hs => ?_, fun serial hs => ?_⟩
    · obtain ⟨kind, ht, -⟩ := isBasic_iff.1 hb
      exact none kind ht
    · exact none _ (template?_coldStake_eq_some_iff.2 hs)
    · exact none _ (template?_mint_eq_some_iff.2 hs)
  · rintro ⟨hbasic, hstake, hmint⟩ kind ht
    cases kind with
    | payToKey | payToKeyId => exact absurd (isBasic_iff.2 ⟨_, ht, rfl⟩) hbasic
    | coldStake staker owner => exact absurd (template?_coldStake_eq_some_iff.1 ht) (hstake staker owner)
    | mint serial => exact absurd (template?_mint_eq_some_iff.1 ht) (hmint serial)
    | nonStandard => cases ht

theorem of_false_of_isBasic (h : s.IsBasic) : of false s = of true s := by
  obtain ⟨kind, ht, hext⟩ := isBasic_iff.1 h
  have hk : kind ≠ nonStandard := by
    rintro rfl
    cases ht
  have known : ∀ extended, of extended s = kind := fun extended =>
    (of_eq_iff hk).2 ⟨ht, fun he => absurd (he.symm.trans hext) nofun⟩
  rw [known false, known true]

theorem of_false_of_not_isBasic (h : ¬ s.IsBasic) : of false s = nonStandard := by
  rw [of_eq_nonStandard_iff]
  intro kind ht
  refine ⟨?_, rfl⟩
  rw [← Bool.not_eq_false]
  exact fun hf => h (isBasic_iff.2 ⟨kind, ht, hf⟩)

/-! ## Main theorem -/

/-- Each kind is told of just the scripts that its template makes, and what no template makes has no kind. A
classifier that is not extended says the same of the basic scripts and nothing of all others. Read by offsets
the answer is the same, and no read reaches beyond the script. -/
theorem of_inverts_templates (s : Script) :
    (∀ key, of true s = .payToKey key ↔ key.bytes.length = 32 ∧ s = .payToKey key) ∧
    (∀ id, of true s = .payToKeyId id ↔ s = .payToKeyId id) ∧
    (∀ staker owner, of true s = .coldStake staker owner ↔ s = .coldStake staker owner) ∧
    (∀ serial, of true s = .mint serial ↔ s.bytes = 0xc1 :: 0x20 :: serial.toList) ∧
    (∀ key, of true (.mint key) = .mint (hash256 key.bytes)) ∧
    (of true s = .nonStandard ↔
      ¬ s.IsBasic ∧ (∀ staker owner, s ≠ .coldStake staker owner) ∧
        ∀ serial : Hash256, s.bytes ≠ 0xc1 :: 0x20 :: serial.toList) ∧
    (s.IsBasic ∧ of false s = of true s ∨ ¬ s.IsBasic ∧ of false s = .nonStandard) ∧
    ∀ extended, Layout.classify? s.bytes (Layout.known extended) = some (of extended s) := by
  have of_true : ∀ kind : Kind, kind ≠ nonStandard → (of true s = kind ↔ kind.template? = some s) := fun kind hk =>
    (of_eq_iff hk).trans (and_iff_left fun _ => rfl)
  refine ⟨fun key => ?_, fun id => ?_, fun staker owner => ?_, fun serial => ?_, fun key => ?_,
    of_true_eq_nonStandard_iff, ?_, fun extended => Layout.classify?_known extended s⟩
  · exact (of_true (payToKey key) nofun).trans template?_payToKey_eq_some_iff
  · exact (of_true (payToKeyId id) nofun).trans template?_payToKeyId_eq_some_iff
  · exact (of_true (coldStake staker owner) nofun).trans template?_coldStake_eq_some_iff
  · exact (of_true (mint serial) nofun).trans template?_mint_eq_some_iff
  · have hk : mint (hash256 key.bytes) ≠ nonStandard := nofun
    exact (of_eq_iff hk).2 ⟨rfl, fun _ => rfl⟩
  · by_cases h : s.IsBasic
    · exact .inl ⟨h, of_false_of_isBasic h⟩
    · exact .inr ⟨h, of_false_of_not_isBasic h⟩

end Kind

end AuditChain.Script
