import Mathlib.Data.List.Basic
import AuditChain.Bytes.Lemmas
import AuditChain.Block
/-!
# What readers take

A reader that succeeds took the encoding of the value that it gives, and nothing else. `Ensures`
states this for a reader by a relation between values and bytes. It follows how readers are put
together, so there is one law for each way and one for each type.
-/

namespace AuditChain

variable {α β : Type}

/-! ## Readers in steps -/

namespace Reader

/-- `P` holds of the value that the reader gives and the bytes that it takes, when it succeeds. -/
def Ensures (reader : Reader α) (P : α → Bytes → Prop) : Prop :=
  ∀ ⦃bs x rest⦄, reader bs = .ok (x, rest) → ∃ taken, bs = taken ++ rest ∧ P x taken

theorem of_bind {reader : Reader α} {f : α → Reader β} {bs rest : Bytes} {y : β}
    (h : (reader >>= f) bs = .ok (y, rest)) : ∃ x mid, reader bs = .ok (x, mid) ∧ f x mid = .ok (y, rest) := by
  simp only [bind, StateT.bind, Except.bind] at h
  cases hr : reader bs with
  | error e => simp [hr] at h
  | ok p => exact ⟨p.1, p.2, rfl, by simpa [hr] using h⟩

theorem ensures_pure {P : α → Bytes → Prop} {x : α} (h : P x []) : Ensures (pure x) P := by
  intro bs y rest hr
  have hpure : (pure x : Reader α) bs = .ok (x, bs) := rfl
  rw [hpure, Except.ok.injEq, Prod.mk.injEq] at hr
  obtain ⟨rfl, rfl⟩ := hr
  exact ⟨[], rfl, h⟩

theorem ensures_throw {P : α → Bytes → Prop} {e : ReadError} : Ensures (throw e) P := by
  intro bs x rest h
  cases h

theorem ensures_bind {P : α → Bytes → Prop} {Q : β → Bytes → Prop} {reader : Reader α} {f : α → Reader β}
    (hr : Ensures reader P) (hf : ∀ x taken, P x taken → Ensures (f x) fun y more => Q y (taken ++ more)) :
    Ensures (reader >>= f) Q := by
  intro bs y rest h
  obtain ⟨x, mid, h1, h2⟩ := of_bind h
  obtain ⟨taken, rfl, hx⟩ := hr h1
  obtain ⟨more, rfl, hy⟩ := hf x taken hx h2
  exact ⟨taken ++ more, by rw [List.append_assoc], hy⟩

theorem ensures_mono {P Q : α → Bytes → Prop} {reader : Reader α} (h : Ensures reader P)
    (hpq : ∀ x taken, P x taken → Q x taken) : Ensures reader Q := by
  intro bs x rest hr
  obtain ⟨taken, rfl, hx⟩ := h hr
  exact ⟨taken, rfl, hpq x taken hx⟩

/-- A value that spans all bytes was read with none left. -/
theorem of_readAll {reader : Reader α} {bs : Bytes} {x : α} (h : readAll reader bs = .ok x) :
    reader bs = .ok (x, []) := by
  unfold readAll at h
  split at h
  · cases h
  · cases h; assumption
  · cases h

end Reader

open Reader

/-! ## Numbers and byte strings -/

theorem ensures_readFixed (n : Nat) : Ensures (readFixed n) fun b taken => taken = b.toList := by
  intro bs b rest h
  unfold readFixed at h
  split at h
  · cases h
    exact ⟨bs.take n, (List.take_append_drop n bs).symm, rfl⟩
  · cases h

theorem ensures_readLE (w : Nat) : Ensures (readLE w) fun n taken => n < 256 ^ w ∧ taken = toLE w n := by
  unfold readLE
  refine ensures_bind (ensures_readFixed w) ?_
  rintro b _ rfl
  apply ensures_pure
  refine ⟨?_, ?_⟩
  · simpa [b.length_toList] using ofLE_lt b.toList
  · have h := toLE_ofLE b.toList
    rw [b.length_toList] at h
    rw [List.append_nil, h]

theorem ensures_readWide (w least : Nat) :
    Ensures (readWide w least) fun n taken => least ≤ n ∧ n < 256 ^ w ∧ taken = toLE w n := by
  unfold readWide
  refine ensures_bind (ensures_readLE w) ?_
  rintro n _ ⟨hn, rfl⟩
  split
  · exact ensures_bind (ensures_throw (P := fun _ _ => False)) fun _ _ h => h.elim
  · exact ensures_pure ⟨by omega, hn, List.append_nil _⟩

theorem ensures_readShortest : Ensures readShortest fun n taken => taken = compactSize n := by
  -- A number that is too large for the shorter forms has the form of `w` bytes after the tag `b`.
  have wide : ∀ (w least : Nat) (b : UInt8),
      (∀ n, least ≤ n → n < 256 ^ w → compactSize n = b :: toLE w n) →
      Ensures (readWide w least) fun n more => toLE 1 b.toNat ++ more = compactSize n := by
    intro w least b hform
    refine ensures_mono (ensures_readWide w least) ?_
    rintro n _ ⟨hlo, hhi, rfl⟩
    simp [hform n hlo hhi, toLE]
  unfold readShortest
  refine ensures_bind (ensures_readLE 1) ?_
  rintro tag _ ⟨htag, rfl⟩
  split
  · subst tag
    refine wide 2 0xfd 0xfd fun n hlo hhi => ?_
    rw [compactSize, if_neg (by omega), if_pos (by omega)]
  split
  · subst tag
    refine wide 4 0x10000 0xfe fun n hlo hhi => ?_
    rw [compactSize, if_neg (by omega), if_neg (by omega), if_pos (by omega)]
  split
  · subst tag
    refine wide 8 0x100000000 0xff fun n hlo hhi => ?_
    rw [compactSize, if_neg (by omega), if_neg (by omega), if_neg (by omega)]
  · apply ensures_pure
    rw [List.append_nil, compactSize, if_pos (by omega)]

theorem ensures_readCompactSize : Ensures readCompactSize fun n taken => taken = compactSize n := by
  unfold readCompactSize
  refine ensures_bind ensures_readShortest ?_
  rintro n _ rfl
  split
  · exact ensures_bind (ensures_throw (P := fun _ _ => False)) fun _ _ h => h.elim
  · exact ensures_pure (List.append_nil _)

theorem ensures_readBytes : Ensures readBytes fun bs taken => taken = encodeBytes bs := by
  unfold readBytes
  refine ensures_bind ensures_readCompactSize ?_
  rintro n _ rfl
  refine ensures_bind (ensures_readFixed n) ?_
  rintro b _ rfl
  apply ensures_pure
  rw [List.append_nil, encodeBytes, b.length_toList]

/-! ## Lists -/

/-- The items of a list are read one after the other. -/
theorem readMany_succ (item : Reader α) (n : Nat) (acc : List α) :
    (readMany item (n + 1) acc : Reader (List α)) = item >>= fun x => readMany item n (x :: acc) := by
  funext bs
  simp only [readMany, bind, StateT.bind, Except.bind]
  cases item bs <;> rfl

theorem ensures_readMany {item : Reader α} {encode : α → Bytes} (h : Ensures item fun x taken => taken = encode x)
    (n : Nat) (acc : List α) :
    Ensures (readMany item n acc) fun xs taken =>
      ∃ ys, ys.length = n ∧ xs = acc.reverse ++ ys ∧ taken = ys.flatMap encode := by
  induction n generalizing acc with
  | zero =>
    intro bs xs rest hr
    simp only [readMany, Except.ok.injEq, Prod.mk.injEq] at hr
    obtain ⟨rfl, rfl⟩ := hr
    exact ⟨[], rfl, [], rfl, by simp, rfl⟩
  | succ n ih =>
    rw [readMany_succ]
    refine ensures_bind h ?_
    rintro x _ rfl
    refine ensures_mono (ih (x :: acc)) ?_
    rintro _ _ ⟨ys, hlen, rfl, rfl⟩
    refine ⟨x :: ys, ?_, ?_, rfl⟩
    · rw [List.length_cons, hlen]
    · rw [List.reverse_cons, List.append_assoc, List.singleton_append]

theorem ensures_readList {item : Reader α} {encode : α → Bytes} (h : Ensures item fun x taken => taken = encode x) :
    Ensures (readList item) fun xs taken => taken = encodeList encode xs := by
  unfold readList
  refine ensures_bind ensures_readCompactSize ?_
  rintro n _ rfl
  refine ensures_mono (ensures_readMany h n []) ?_
  rintro _ _ ⟨ys, rfl, rfl, rfl⟩
  rfl

/-! ## Types on the wire -/

/-- What is read as a value of the type is the encoding of that value. -/
def Exact (α : Type) [Wire α] : Prop := Ensures (Wire.read : Reader α) fun x taken => taken = encode x

theorem exact_uint32 : Exact UInt32 := by
  refine ensures_bind (ensures_readLE 4) ?_
  rintro n _ ⟨hn, rfl⟩
  apply ensures_pure
  have h : (UInt32.ofNat n).toNat = n := UInt32.toNat_ofNat_of_lt' hn
  show toLE 4 n ++ [] = toLE 4 (UInt32.ofNat n).toNat
  rw [List.append_nil, h]

theorem exact_int32 : Exact Int32 := by
  refine ensures_bind (ensures_readLE 4) ?_
  rintro n _ ⟨hn, rfl⟩
  apply ensures_pure
  have h : (UInt32.ofNat n).toNat = n := UInt32.toNat_ofNat_of_lt' hn
  show toLE 4 n ++ [] = toLE 4 (UInt32.ofNat n).toInt32.toUInt32.toNat
  rw [List.append_nil, UInt32.toUInt32_toInt32, h]

theorem exact_int64 : Exact Int64 := by
  refine ensures_bind (ensures_readLE 8) ?_
  rintro n _ ⟨hn, rfl⟩
  apply ensures_pure
  have h : (UInt64.ofNat n).toNat = n := UInt64.toNat_ofNat_of_lt' hn
  show toLE 8 n ++ [] = toLE 8 (UInt64.ofNat n).toInt64.toUInt64.toNat
  rw [List.append_nil, UInt64.toUInt64_toInt64, h]

theorem exact_fixedBytes (n : Nat) : Exact (FixedBytes n) := ensures_readFixed n

theorem exact_script : Exact Script := by
  refine ensures_bind ensures_readBytes ?_
  rintro bytes _ rfl
  apply ensures_pure
  exact List.append_nil _

theorem exact_outPoint : Exact OutPoint := by
  refine ensures_bind (exact_fixedBytes 32) ?_
  rintro txid _ rfl
  refine ensures_bind exact_uint32 ?_
  rintro vout _ rfl
  apply ensures_pure
  rw [List.append_nil]
  rfl

theorem exact_txIn : Exact TxIn := by
  refine ensures_bind exact_outPoint ?_
  rintro prevout _ rfl
  refine ensures_bind exact_script ?_
  rintro scriptSig _ rfl
  refine ensures_bind exact_uint32 ?_
  rintro sequence _ rfl
  apply ensures_pure
  rw [List.append_nil]
  rfl

theorem exact_txOut : Exact TxOut := by
  refine ensures_bind exact_int64 ?_
  rintro value _ rfl
  refine ensures_bind exact_script ?_
  rintro script _ rfl
  apply ensures_pure
  rw [List.append_nil]
  rfl

theorem exact_transaction : Exact Transaction := by
  refine ensures_bind exact_int32 ?_
  rintro version _ rfl
  refine ensures_bind (ensures_readList exact_txIn) ?_
  rintro inputs _ rfl
  refine ensures_bind (ensures_readList exact_txOut) ?_
  rintro outputs _ rfl
  refine ensures_bind exact_uint32 ?_
  rintro lockTime _ rfl
  apply ensures_pure
  rw [List.append_nil]
  rfl

theorem exact_summary : Exact Summary := by
  refine ensures_bind (exact_fixedBytes 32) ?_
  rintro hash _ rfl
  refine ensures_bind exact_uint32 ?_
  rintro time _ rfl
  refine ensures_bind exact_uint32 ?_
  rintro height _ rfl
  apply ensures_pure
  rw [List.append_nil]
  rfl

theorem exact_commitment : Exact Commitment := by
  refine ensures_bind (exact_fixedBytes 32) ?_
  rintro prevAudit _ rfl
  refine ensures_bind (exact_fixedBytes 32) ?_
  rintro auditRoot _ rfl
  refine ensures_bind (exact_fixedBytes 32) ?_
  rintro minedHash _ rfl
  apply ensures_pure
  rw [List.append_nil]
  rfl

/-! ## Headers and blocks -/

/-- A commitment is there just when the version is one of an audit header. -/
theorem Header.checkLayout_eq_ok {h : Header} : h.checkLayout = .ok () ↔ h.isAudit = h.audit.isSome := by
  unfold Header.checkLayout
  cases h.isAudit <;> cases h.audit <;> simp

theorem Header.encode_of_layout {h : Header} (hl : h.isAudit = h.audit.isSome) :
    h.encode = .ok (AuditChain.encode h.version ++ (AuditChain.encode h.prevBlock ++
      (AuditChain.encode h.merkleRoot ++ ((h.audit.elim [] AuditChain.encode) ++ (AuditChain.encode h.time ++
        (AuditChain.encode h.bits ++ AuditChain.encode h.nonce)))))) := by
  unfold Header.encode
  rw [Header.checkLayout_eq_ok.2 hl]
  cases h.audit <;> rfl

theorem ensures_readHeader : Ensures Header.read fun h taken => h.encode = .ok taken := by
  unfold Header.read
  refine ensures_bind exact_int32 ?_
  rintro version _ rfl
  refine ensures_bind (exact_fixedBytes 32) ?_
  rintro prevBlock _ rfl
  refine ensures_bind (exact_fixedBytes 32) ?_
  rintro merkleRoot _ rfl
  -- The fields after the commitment are read in the same way whether it is there or not.
  have rest : ∀ audit : Option Commitment, isAuditVersion version = audit.isSome →
      Ensures (do return (⟨version, prevBlock, merkleRoot, audit, ← Wire.read, ← Wire.read, ← Wire.read⟩ : Header))
        fun h more => h.encode = .ok (encode version ++ (encode prevBlock ++ (encode merkleRoot ++
          (audit.elim [] encode ++ more)))) := by
    intro audit hl
    refine ensures_bind exact_uint32 ?_
    rintro time _ rfl
    refine ensures_bind exact_uint32 ?_
    rintro bits _ rfl
    refine ensures_bind exact_uint32 ?_
    rintro nonce _ rfl
    apply ensures_pure
    rw [List.append_nil]
    exact Header.encode_of_layout hl
  split
  · rename_i hv
    rw [bind_map_left]
    refine ensures_bind exact_commitment ?_
    rintro c _ rfl
    exact rest (some c) hv
  · rename_i hv
    rw [pure_bind]
    exact rest none (by simpa using hv)

theorem Block.encode_eq_ok {b : Block} {header signature summaries : Bytes} (hh : b.header.encode = .ok header)
    (hs : b.encodeSignature = .ok signature) (hm : b.encodeSummaries = .ok summaries) :
    b.encode = .ok (header ++ (encodeList AuditChain.encode b.transactions ++ (signature ++ summaries))) := by
  unfold Block.encode
  rw [hh, hs, hm]
  rfl

theorem ensures_readBlock : Ensures Block.read fun b taken => b.encode = .ok taken := by
  unfold Block.read
  refine ensures_bind ensures_readHeader ?_
  intro header headerBytes hh
  refine ensures_bind (ensures_readList exact_transaction) ?_
  rintro transactions _ rfl
  have rest : ∀ signature signatureBytes,
      (Block.mk header transactions signature []).encodeSignature = .ok signatureBytes →
      Ensures (if header.isAudit then do return ⟨header, transactions, signature, ← readList Wire.read⟩
        else do return ⟨header, transactions, signature, ← pure []⟩ : Reader Block)
        fun b more => b.encode = .ok (headerBytes ++ (encodeList encode transactions ++ (signatureBytes ++ more))) := by
    intro signature signatureBytes hs
    split
    · rename_i ha
      refine ensures_bind (ensures_readList exact_summary) ?_
      rintro summaries _ rfl
      apply ensures_pure
      rw [List.append_nil]
      exact Block.encode_eq_ok hh hs (if_pos ha)
    · rename_i ha
      rw [pure_bind]
      apply ensures_pure
      exact Block.encode_eq_ok hh hs (if_neg ha)
  dsimp only
  by_cases hc : (Block.mk header transactions [] []).hasCoinstake = true
  · rw [if_pos hc]
    refine ensures_bind ensures_readBytes ?_
    rintro signature _ rfl
    exact rest signature _ (if_pos hc)
  · rw [if_neg hc, pure_bind]
    exact rest [] [] (if_neg hc)

theorem readAll_encode_of_exact [Wire α] (h : Exact α) {bs : Bytes} {x : α} (hr : readAll Wire.read bs = .ok x) :
    encode x = bs := by
  obtain ⟨taken, rfl, rfl⟩ := h (of_readAll hr)
  exact (List.append_nil _).symm

/-! ## Main theorem -/

/-- Bytes that read as a block, a header, a transaction or a summary are the encoding of what they
read as, so no two byte strings read as the same block. -/
theorem read_canonical :
    (∀ bs b, readAll Block.read bs = .ok b → b.encode = .ok bs ∧ ∀ cs, readAll Block.read cs = .ok b → cs = bs) ∧
    (∀ bs h, readAll Header.read bs = .ok h → h.encode = .ok bs) ∧
    (∀ bs (tx : Transaction), readAll Wire.read bs = .ok tx → encode tx = bs) ∧
    (∀ bs (s : Summary), readAll Wire.read bs = .ok s → encode s = bs) := by
  have block : ∀ bs b, readAll Block.read bs = .ok b → b.encode = .ok bs := by
    intro bs b h
    obtain ⟨taken, rfl, hb⟩ := ensures_readBlock (of_readAll h)
    rw [hb, List.append_nil]
  refine ⟨?_, ?_, ?_, ?_⟩
  · intro bs b h
    refine ⟨block bs b h, fun cs hc => ?_⟩
    have he := (block cs b hc).symm.trans (block bs b h)
    exact Except.ok.inj he
  · intro bs h hr
    obtain ⟨taken, rfl, hh⟩ := ensures_readHeader (of_readAll hr)
    rw [hh, List.append_nil]
  · intro bs tx h
    exact readAll_encode_of_exact exact_transaction h
  · intro bs s h
    exact readAll_encode_of_exact exact_summary h

/-- An audit block with a coinstake has every part that a block can have. -/
theorem read_canonical_audit :
    let header : Bytes := [100, 0, 0, 0] ++ List.replicate 160 0 ++ [1, 0, 0, 0, 2, 0, 0, 0, 3, 0, 0, 0]
    let stake : Bytes := [1, 0, 0, 0, 1] ++ List.replicate 32 8 ++ [0, 0, 0, 0, 0, 9, 0, 0, 0, 2] ++
      List.replicate 9 0 ++ [5, 0, 0, 0, 0, 0, 0, 0, 1, 81, 0, 0, 0, 0]
    let summary : Bytes := List.replicate 32 6 ++ [4, 0, 0, 0, 7, 0, 0, 0]
    let h : Header := ⟨100, 0, 0, some ⟨0, 0, 0⟩, 1, 2, 3⟩
    let tx : Transaction := ⟨1, [⟨⟨⟨List.replicate 32 8, rfl⟩, 0⟩, ⟨[]⟩, 9⟩], [⟨0, ⟨[]⟩⟩, ⟨5, ⟨[81]⟩⟩], 0⟩
    let s : Summary := ⟨⟨List.replicate 32 6, rfl⟩, 4, 7⟩
    let b : Block := ⟨h, [tx, tx], [7, 7], [s]⟩
    let block : Bytes := header ++ (2 :: (stake ++ stake)) ++ [2, 7, 7] ++ (1 :: summary)
    readAll Block.read block = .ok b ∧ readAll Header.read header = .ok h ∧ readAll Wire.read stake = .ok tx ∧
      readAll Wire.read summary = .ok s ∧ b.encode = .ok block ∧ h.encode = .ok header ∧ encode tx = stake ∧
      encode s = summary := by
  intro header stake summary h tx s b block
  have hb : readAll Block.read block = .ok b := by decide +kernel
  have hh : readAll Header.read header = .ok h := by decide +kernel
  have ht : readAll Wire.read stake = .ok tx := by decide +kernel
  have hs : readAll Wire.read summary = .ok s := by decide +kernel
  obtain ⟨blocks, headers, transactions, summaries⟩ := read_canonical
  exact ⟨hb, hh, ht, hs, (blocks block b hb).1, headers header h hh, transactions stake tx ht, summaries summary s hs⟩

end AuditChain
