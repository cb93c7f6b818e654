import AuditChain.Proofs.Checks
import AuditChain.Proofs.Reading
import AuditChain.Proofs.Writing
/-!
# A block survives the wire

The writer has no limit and the reader has one. So what was written is read back as it was, up to the
first length that is too large for the reader, and there the reader stops. A block that fits the size
limit has no such length.
-/

namespace AuditChain

variable {α β : Type}

/-! ## Reading stops at the first length that is too large -/

/-- What a reader gives for something that was written with the given lengths. -/
def limited (lengths : List Nat) (x : α) : Except ReadError α :=
  match lengths.find? (maxSize < ·) with
  | none => .ok x
  | some n => .error (.oversized n)

theorem find?_eq_none_of_le {lengths : List Nat} (h : ∀ n ∈ lengths, n ≤ maxSize) :
    lengths.find? (maxSize < ·) = none := by
  rw [List.find?_eq_none]
  intro n hn
  have hle := h n hn
  simpa using hle

theorem limited_of_le {lengths : List Nat} (h : ∀ n ∈ lengths, n ≤ maxSize) (x : α) : limited lengths x = .ok x := by
  rw [limited, find?_eq_none_of_le h]

theorem limited_of_first {before after : List Nat} {n : Nat} (h : ∀ m ∈ before, m ≤ maxSize) (hn : maxSize < n) (x : α) :
    limited (before ++ n :: after) x = .error (.oversized n) := by
  rw [limited, List.find?_append, find?_eq_none_of_le h, List.find?_cons_of_pos (by simpa using hn), Option.none_or]

/-- The reader takes `written` and nothing after it, and gives `x` within the limit. Lengths have eight
bytes on the wire, so larger ones are not written as they are. -/
def ReadsBack (reader : Reader α) (written : Bytes) (lengths : List Nat) (x : α) : Prop :=
  (∀ n ∈ lengths, n < 2 ^ 64) → ∀ rest, reader (written ++ rest) = limited lengths (x, rest)

theorem ReadsBack.bind {reader : Reader α} {f : α → Reader β} {bs cs : Bytes} {ls ms : List Nat} {x : α} {y : β}
    (hx : ReadsBack reader bs ls x) (hy : ReadsBack (f x) cs ms y) :
    ReadsBack (reader >>= f) (bs ++ cs) (ls ++ ms) y := by
  intro hlt rest
  have h1 := hx (fun n hn => hlt n (List.mem_append_left _ hn)) (cs ++ rest)
  have h2 := hy (fun n hn => hlt n (List.mem_append_right _ hn)) rest
  rw [← List.append_assoc] at h1
  simp only [limited] at h1 h2 ⊢
  rw [List.find?_append]
  cases hf : ls.find? (maxSize < ·) with
  | none =>
    simp only [hf] at h1
    rw [Reader.bind_of_ok h1, h2, Option.none_or]
  | some n =>
    simp only [hf] at h1
    exact Reader.bind_of_error h1

theorem readsBack_pure (x : α) : ReadsBack (pure x) [] [] x := fun _ _ => rfl

/-- The last value of a sequence is given as it is. -/
theorem ReadsBack.map {reader : Reader α} {f : α → β} {bs : Bytes} {ls : List Nat} {x : α} (h : ReadsBack reader bs ls x) :
    ReadsBack (do return f (← reader)) bs ls (f x) := by
  have hf := h.bind (f := fun x => pure (f x)) (readsBack_pure (f x))
  rwa [List.append_nil, List.append_nil] at hf

/-! ## Numbers, byte strings and lists -/

theorem readsBack_readFixed {n : Nat} (b : FixedBytes n) : ReadsBack (readFixed n) b.toList [] b :=
  fun _ rest => readFixed_append b rest

theorem readsBack_readLE {w n : Nat} (h : n < 256 ^ w) : ReadsBack (readLE w) (toLE w n) [] n :=
  fun _ rest => readLE_append h rest

/-- A length is judged as soon as it is read. -/
theorem readsBack_readCompactSize (n : Nat) : ReadsBack readCompactSize (compactSize n) [n] n := by
  intro hlt rest
  have hn : n < 2 ^ 64 := hlt n (by simp)
  unfold readCompactSize
  rw [Reader.bind_of_ok (readShortest_append hn rest)]
  by_cases h : maxSize < n
  · simp only [limited, List.find?_cons, h, if_true, decide_true]
    rfl
  · simp only [limited, List.find?_cons, h, if_false, decide_false, List.find?_nil]
    rfl

theorem readsBack_readBytes (bs : Bytes) : ReadsBack readBytes (encodeBytes bs) [bs.length] bs :=
  (readsBack_readCompactSize bs.length).bind (readsBack_readFixed ⟨bs, rfl⟩).map

theorem readsBack_readMany {item : Reader α} {encode : α → Bytes} {lengths : α → List Nat} {xs : List α} (acc : List α)
    (h : ∀ x ∈ xs, ReadsBack item (encode x) (lengths x) x) :
    ReadsBack (readMany item xs.length acc) (xs.flatMap encode) (xs.flatMap lengths) (acc.reverse ++ xs) := by
  induction xs generalizing acc with
  | nil =>
    intro _ rest
    simp [readMany, limited]
  | cons x xs ih =>
    have htail := ih (x :: acc) fun y hy => h y (List.mem_cons_of_mem _ hy)
    rw [List.reverse_cons, List.append_assoc, List.singleton_append] at htail
    rw [List.length_cons, readMany_succ]
    exact (h x List.mem_cons_self).bind htail

theorem readsBack_readList {item : Reader α} {encode : α → Bytes} {lengths : α → List Nat} {xs : List α}
    (h : ∀ x ∈ xs, ReadsBack item (encode x) (lengths x) x) :
    ReadsBack (readList item) (encodeList encode xs) (xs.length :: xs.flatMap lengths) xs :=
  (readsBack_readCompactSize xs.length).bind (readsBack_readMany [] h)

/-! ## Types on the wire -/

theorem readsBack_uint32 (n : UInt32) : ReadsBack Wire.read (encode n) [] n := by
  have h := (readsBack_readLE (w := 4) n.toNat_lt).map (f := UInt32.ofNat)
  rwa [UInt32.ofNat_toNat] at h

theorem readsBack_int32 (n : Int32) : ReadsBack Wire.read (encode n) [] n := by
  have h := (readsBack_readLE (w := 4) n.toUInt32.toNat_lt).map (f := fun m => (UInt32.ofNat m).toInt32)
  rwa [UInt32.ofNat_toNat, Int32.toInt32_toUInt32] at h

theorem readsBack_int64 (n : Int64) : ReadsBack Wire.read (encode n) [] n := by
  have h := (readsBack_readLE (w := 8) n.toUInt64.toNat_lt).map (f := fun m => (UInt64.ofNat m).toInt64)
  rwa [UInt64.ofNat_toNat, Int64.toInt64_toUInt64] at h

theorem readsBack_hash (h : Hash256) : ReadsBack Wire.read (encode h) [] h := readsBack_readFixed h

theorem readsBack_script (s : Script) : ReadsBack Wire.read (encode s) [s.bytes.length] s :=
  (readsBack_readBytes s.bytes).map

theorem readsBack_outPoint (o : OutPoint) : ReadsBack Wire.read (encode o) [] o :=
  (readsBack_hash o.txid).bind (readsBack_uint32 o.vout).map

theorem readsBack_txIn (i : TxIn) : ReadsBack Wire.read (encode i) [i.scriptSig.bytes.length] i :=
  (readsBack_outPoint i.prevout).bind ((readsBack_script i.scriptSig).bind (readsBack_uint32 i.sequence).map)

theorem readsBack_txOut (o : TxOut) : ReadsBack Wire.read (encode o) [o.script.bytes.length] o :=
  (readsBack_int64 o.value).bind (readsBack_script o.script).map

/-- The lengths that a transaction is written with, in the order of the wire. -/
def Transaction.lengths (tx : Transaction) : List Nat :=
  (tx.inputs.length :: tx.inputs.map (·.scriptSig.bytes.length)) ++
    (tx.outputs.length :: tx.outputs.map (·.script.bytes.length))

theorem readsBack_transaction (tx : Transaction) : ReadsBack Wire.read (encode tx) tx.lengths tx := by
  have inputs : ReadsBack (readList Wire.read) (encodeList encode tx.inputs)
      (tx.inputs.length :: tx.inputs.map (·.scriptSig.bytes.length)) tx.inputs := by
    rw [List.map_eq_flatMap]
    exact readsBack_readList fun i _ => readsBack_txIn i
  have outputs : ReadsBack (readList Wire.read) (encodeList encode tx.outputs)
      (tx.outputs.length :: tx.outputs.map (·.script.bytes.length)) tx.outputs := by
    rw [List.map_eq_flatMap]
    exact readsBack_readList fun o _ => readsBack_txOut o
  unfold Transaction.lengths
  rw [← List.append_nil (tx.outputs.length :: _)]
  exact (readsBack_int32 tx.version).bind (inputs.bind (outputs.bind (readsBack_uint32 tx.lockTime).map))

theorem readsBack_summary (s : Summary) : ReadsBack Wire.read (encode s) [] s :=
  (readsBack_hash s.hash).bind ((readsBack_uint32 s.time).bind (readsBack_uint32 s.height).map)

theorem readsBack_summaries (xs : List Summary) :
    ReadsBack (readList Wire.read) (encodeList encode xs) [xs.length] xs := by
  have h : ReadsBack (readList Wire.read) (encodeList encode xs) (xs.length :: xs.flatMap fun _ => []) xs :=
    readsBack_readList fun s _ => readsBack_summary s
  rwa [List.flatMap_eq_nil_iff.2 fun _ _ => rfl] at h

theorem readsBack_commitment (c : Commitment) : ReadsBack Wire.read (encode c) [] c :=
  (readsBack_hash c.prevAudit).bind ((readsBack_hash c.auditRoot).bind (readsBack_hash c.minedHash).map)

/-! ## Headers and blocks -/

theorem Header.layout_of_encode {h : Header} {bs : Bytes} (he : h.encode = .ok bs) : h.checkLayout = .ok () := by
  obtain ⟨_, hl, -⟩ := bind_eq_ok_iff.1 he
  exact hl

theorem readsBack_header {h : Header} {bs : Bytes} (he : h.encode = .ok bs) : ReadsBack Header.read bs [] h := by
  have hl := Header.checkLayout_eq_ok.1 (Header.layout_of_encode he)
  rw [Header.encode_of_layout hl, Except.ok.injEq] at he
  subst he
  obtain ⟨version, prevBlock, merkleRoot, audit, time, bits, nonce⟩ := h
  -- The fields after the commitment are read in the same way whether it is there or not.
  have rest : ReadsBack
      (do return (⟨version, prevBlock, merkleRoot, audit, ← Wire.read, ← Wire.read, ← Wire.read⟩ : Header))
      (encode time ++ (encode bits ++ encode nonce)) [] ⟨version, prevBlock, merkleRoot, audit, time, bits, nonce⟩ :=
    (readsBack_uint32 time).bind ((readsBack_uint32 bits).bind (readsBack_uint32 nonce).map)
  unfold Header.read
  refine (readsBack_int32 version).bind ((readsBack_hash prevBlock).bind ((readsBack_hash merkleRoot).bind ?_))
  cases audit with
  | none =>
    have hv : isAuditVersion version = false := hl
    rw [if_neg (by simp [hv]), pure_bind]
    exact rest
  | some c =>
    have hv : isAuditVersion version = true := hl
    rw [if_pos hv, bind_map_left]
    exact (readsBack_commitment c).bind rest

namespace Block

/-- Every part of the block has a place on the wire. -/
structure Encodable (b : Block) : Prop where
  layout : b.header.checkLayout = .ok ()
  signature : b.hasCoinstake = false → b.signature = []
  summaries : b.header.isAudit = false → b.summaries = []

theorem Encodable.encode_eq {b : Block} (h : b.Encodable) :
    ∃ header, b.header.encode = .ok header ∧
      b.encode = .ok (header ++ (encodeList AuditChain.encode b.transactions ++
        ((if b.hasCoinstake then encodeBytes b.signature else []) ++
          (if b.header.isAudit then encodeList AuditChain.encode b.summaries else [])))) := by
  have hh := Header.encode_of_layout (Header.checkLayout_eq_ok.1 h.layout)
  have hs : b.encodeSignature = .ok (if b.hasCoinstake then encodeBytes b.signature else []) := by
    unfold encodeSignature
    cases hc : b.hasCoinstake <;> simp [h.signature, hc]
  have hm : b.encodeSummaries = .ok (if b.header.isAudit then encodeList AuditChain.encode b.summaries else []) := by
    unfold encodeSummaries
    cases ha : b.header.isAudit <;> simp [h.summaries, ha]
  exact ⟨_, hh, encode_eq_ok hh hs hm⟩

theorem encodable_of_encode {b : Block} {bs : Bytes} (h : b.encode = .ok bs) : b.Encodable := by
  obtain ⟨header, hh, h⟩ := bind_eq_ok_iff.1 h
  obtain ⟨signature, hs, h⟩ := bind_eq_ok_iff.1 h
  obtain ⟨summaries, hm, -⟩ := bind_eq_ok_iff.1 h
  refine ⟨Header.layout_of_encode hh, fun hc => ?_, fun ha => ?_⟩
  · by_contra hne
    simp [encodeSignature, hc, hne] at hs
  · by_contra hne
    simp [encodeSummaries, ha, hne] at hm

/-- The lengths that a block is written with, in the order of the wire. -/
def lengths (b : Block) : List Nat :=
  (b.transactions.length :: b.transactions.flatMap Transaction.lengths) ++
    ((if b.hasCoinstake then [b.signature.length] else []) ++ (if b.header.isAudit then [b.summaries.length] else []))

theorem readsBack {b : Block} {bs : Bytes} (he : b.encode = .ok bs) : ReadsBack read bs b.lengths b := by
  have hb := encodable_of_encode he
  obtain ⟨headerBytes, hh, hbs⟩ := hb.encode_eq
  rw [hbs, Except.ok.injEq] at he
  subst he
  obtain ⟨header, transactions, signature, summaries⟩ := b
  have items := readsBack_readList fun tx (_ : tx ∈ transactions) => readsBack_transaction tx
  have last : ReadsBack
      (if header.isAudit then do return ⟨header, transactions, signature, ← readList Wire.read⟩
        else do return ⟨header, transactions, signature, ← pure []⟩ : Reader Block)
      (if header.isAudit then encodeList AuditChain.encode summaries else [])
      (if header.isAudit then [summaries.length] else []) ⟨header, transactions, signature, summaries⟩ := by
    by_cases ha : header.isAudit = true
    · simp only [ha, if_true]
      exact (readsBack_summaries summaries).map
    · obtain rfl : summaries = [] := hb.summaries (by simpa using ha)
      simp only [ha]
      exact readsBack_pure _
  unfold read
  refine (readsBack_header hh).bind (items.bind ?_)
  dsimp only
  by_cases hc : (Block.mk header transactions [] []).hasCoinstake = true
  · -- Neither the signature nor the summaries decide whether there is a coinstake.
    have hc' : (Block.mk header transactions signature summaries).hasCoinstake = true := hc
    rw [if_pos hc, if_pos hc', if_pos hc']
    exact (readsBack_readBytes signature).bind last
  · have hc' : ¬ (Block.mk header transactions signature summaries).hasCoinstake = true := hc
    obtain rfl : signature = [] := hb.signature (by simpa using hc')
    rw [if_neg hc, if_neg hc', if_neg hc', pure_bind]
    exact last

end Block

/-! ## What fits the size limit has no length above it -/

/-- No length is larger than all that it is written in. -/
def Covered (lengths : List Nat) (written : Bytes) : Prop :=
  ∀ n ∈ lengths, n ≤ written.length

theorem covered_nil (written : Bytes) : Covered [] written := by
  intro n hn
  cases hn

theorem Covered.append {ls ms : List Nat} {bs cs : Bytes} (h : Covered ls bs) (h' : Covered ms cs) :
    Covered (ls ++ ms) (bs ++ cs) := by
  intro n hn
  rw [List.length_append]
  rcases List.mem_append.1 hn with hn | hn
  · exact Nat.le_trans (h n hn) (Nat.le_add_right _ _)
  · exact Nat.le_trans (h' n hn) (Nat.le_add_left _ _)

theorem covered_encodeBytes (bs : Bytes) : Covered [bs.length] (encodeBytes bs) := by
  intro n hn
  obtain rfl := List.mem_singleton.1 hn
  simp [encodeBytes]

/-- Every item takes at least one byte, so there are no more items than bytes. -/
theorem covered_encodeList {encode : α → Bytes} {lengths : α → List Nat} {xs : List α}
    (h : ∀ x ∈ xs, Covered (lengths x) (encode x)) (hpos : ∀ x ∈ xs, 0 < (encode x).length) :
    Covered (xs.length :: xs.flatMap lengths) (encodeList encode xs) := by
  have items : Covered (xs.length :: xs.flatMap lengths) (xs.flatMap encode) := by
    induction xs with
    | nil => simp [Covered]
    | cons x xs ih =>
      have htail := ih (fun y hy => h y (List.mem_cons_of_mem _ hy)) fun y hy => hpos y (List.mem_cons_of_mem _ hy)
      have hlen : xs.length ≤ (xs.flatMap encode).length := htail _ List.mem_cons_self
      have hx := hpos x List.mem_cons_self
      have happend := (h x List.mem_cons_self).append fun n hn => htail n (List.mem_cons_of_mem _ hn)
      intro n hn
      rcases List.mem_cons.1 hn with rfl | hn
      · rw [List.flatMap_cons, List.length_append, List.length_cons]
        omega
      · exact happend n hn
  exact (covered_nil _).append items

theorem covered_txIn (i : TxIn) : Covered [i.scriptSig.bytes.length] (encode i) :=
  (covered_nil _).append ((covered_encodeBytes _).append (covered_nil _))

theorem covered_txOut (o : TxOut) : Covered [o.script.bytes.length] (encode o) :=
  (covered_nil _).append (covered_encodeBytes _)

theorem length_encode_txIn_pos (i : TxIn) : 0 < (encode i).length := by
  show 0 < (_ ++ (_ ++ toLE 4 _)).length
  simp only [List.length_append, length_toLE]
  omega

theorem length_encode_txOut_pos (o : TxOut) : 0 < (encode o).length := by
  show 0 < (toLE 8 _ ++ _).length
  simp only [List.length_append, length_toLE]
  omega

theorem length_encode_transaction_pos (tx : Transaction) : 0 < (encode tx).length := by
  show 0 < (toLE 4 _ ++ _).length
  simp only [List.length_append, length_toLE]
  omega

theorem covered_transaction (tx : Transaction) : Covered tx.lengths (encode tx) := by
  have inputs : Covered (tx.inputs.length :: tx.inputs.map (·.scriptSig.bytes.length)) (encodeList encode tx.inputs) := by
    rw [List.map_eq_flatMap]
    exact covered_encodeList (fun i _ => covered_txIn i) fun i _ => length_encode_txIn_pos i
  have outputs : Covered (tx.outputs.length :: tx.outputs.map (·.script.bytes.length)) (encodeList encode tx.outputs) := by
    rw [List.map_eq_flatMap]
    exact covered_encodeList (fun o _ => covered_txOut o) fun o _ => length_encode_txOut_pos o
  unfold Transaction.lengths
  rw [← List.append_nil (tx.outputs.length :: _)]
  exact (covered_nil _).append (inputs.append (outputs.append (covered_nil _)))

theorem covered_summaries (xs : List Summary) : Covered [xs.length] (encodeList encode xs) := by
  have hpos : ∀ s : Summary, 0 < (encode s).length := fun s => by
    rw [length_encode_summary]
    decide
  have h : Covered (xs.length :: xs.flatMap fun _ => []) (encodeList encode xs) :=
    covered_encodeList (fun s _ => covered_nil (encode s)) fun s _ => hpos s
  rwa [List.flatMap_eq_nil_iff.2 fun _ _ => rfl] at h

namespace Block

theorem covered {b : Block} {bs : Bytes} (he : b.encode = .ok bs) : Covered b.lengths bs := by
  obtain ⟨headerBytes, -, hbs⟩ := (encodable_of_encode he).encode_eq
  rw [hbs, Except.ok.injEq] at he
  subst he
  have items := covered_encodeList (fun tx (_ : tx ∈ b.transactions) => covered_transaction tx) fun tx _ =>
    length_encode_transaction_pos tx
  have signature : Covered (if b.hasCoinstake then [b.signature.length] else [])
      (if b.hasCoinstake then encodeBytes b.signature else []) := by
    split
    · exact covered_encodeBytes _
    · exact covered_nil _
  have summaries : Covered (if b.header.isAudit then [b.summaries.length] else [])
      (if b.header.isAudit then encodeList AuditChain.encode b.summaries else []) := by
    split
    · exact covered_summaries _
    · exact covered_nil _
  exact (covered_nil _).append (items.append (signature.append summaries))

theorem of_checkSize {b : Block} {limit : Nat} (h : b.checkSize limit = .ok ()) :
    ∃ bs, b.encode = .ok bs ∧ bs.length ≤ limit := by
  unfold checkSize size at h
  cases he : b.encode with
  | error fault => simp [he, Except.map] at h
  | ok bs =>
    refine ⟨bs, rfl, ?_⟩
    by_contra hlt
    simp [he, Except.map, Nat.lt_of_not_le hlt] at h

/-! ## Reading a whole block -/

theorem readAll_encode {b : Block} {bs : Bytes} (he : b.encode = .ok bs) (hlt : ∀ n ∈ b.lengths, n < 2 ^ 64) :
    readAll read bs = limited b.lengths b := by
  have h := readsBack he hlt []
  rw [List.append_nil] at h
  unfold readAll limited at *
  rw [h]
  cases b.lengths.find? (maxSize < ·) <;> rfl

theorem readAll_of_checkSize {b : Block} (h : b.checkSize maxSizeCurrent = .ok ()) :
    ∃ bs, b.encode = .ok bs ∧ readAll read bs = .ok b := by
  obtain ⟨bs, he, hsize⟩ := of_checkSize h
  have hle : ∀ n ∈ b.lengths, n ≤ maxSize := fun n hn => Nat.le_trans (covered he n hn) hsize
  have hlt : ∀ n ∈ b.lengths, n < 2 ^ 64 := fun n hn => Nat.lt_of_le_of_lt (hle n hn) (by decide)
  exact ⟨bs, he, (readAll_encode he hlt).trans (limited_of_le hle b)⟩

theorem encode_error_iff {b : Block} : (∃ fault, b.encode = .error fault) ↔ ¬ b.Encodable := by
  constructor
  · rintro ⟨fault, hf⟩ hb
    obtain ⟨_, -, he⟩ := hb.encode_eq
    rw [he] at hf
    cases hf
  · intro hb
    cases he : b.encode with
    | error fault => exact ⟨fault, rfl⟩
    | ok bs => exact absurd (encodable_of_encode he) hb

/-! ## Main theorem -/

/-- An encoding is read back as the block, unless a length in it is too large for a reader: then the
first such length is reported. A block within the size limit has no such length. There is no encoding
just when the header, the signature or the summaries do not fit the kind of the block. -/
theorem read_encode (b : Block) :
    (∀ bs, b.encode = .ok bs → (∀ n ∈ b.lengths, n < 2 ^ 64) →
      ((∀ n ∈ b.lengths, n ≤ maxSize) → readAll read bs = .ok b) ∧
      (∀ before n after, b.lengths = before ++ n :: after → (∀ m ∈ before, m ≤ maxSize) → maxSize < n →
        readAll read bs = .error (.oversized n))) ∧
    (b.checkSize maxSizeCurrent = .ok () → ∃ bs, b.encode = .ok bs ∧ readAll read bs = .ok b) ∧
    ((∃ fault, b.encode = .error fault) ↔
      b.header.checkLayout ≠ .ok () ∨ (b.signature ≠ [] ∧ b.hasCoinstake = false) ∨
        (b.summaries ≠ [] ∧ b.header.isAudit = false)) := by
  refine ⟨fun bs he hlt => ⟨fun hle => ?_, fun before n after hl hbefore hn => ?_⟩, readAll_of_checkSize, ?_⟩
  · exact (readAll_encode he hlt).trans (limited_of_le hle b)
  · rw [readAll_encode he hlt, hl, limited_of_first hbefore hn]
  · rw [encode_error_iff]
    constructor
    · intro hb
      by_contra hno
      simp only [not_or, not_and, not_not] at hno
      obtain ⟨hl, hs, hm⟩ := hno
      exact hb ⟨hl, fun hc => by_contra fun hne => hs hne hc, fun ha => by_contra fun hne => hm hne ha⟩
    · rintro (hl | ⟨hs, hc⟩ | ⟨hm, ha⟩) hb
      · exact hl hb.layout
      · exact hs (hb.signature hc)
      · exact hm (hb.summaries ha)

/-- With a signature of 64 bytes an audit block is read back, and with one that is too long for a reader
the length of the signature is reported. -/
theorem read_encode_signature :
    let stake : Transaction := ⟨1, [⟨⟨0, 1⟩, .empty, 9⟩], [⟨0, .empty⟩, ⟨5, ⟨[81]⟩⟩], 0⟩
    let b : Nat → Block := fun n =>
      ⟨⟨100, 0, 0, some ⟨0, 0, 0⟩, 1, 2, 3⟩, [.coinbase 7 [], stake], List.replicate n 7, [⟨0, 4, 5⟩]⟩
    (b 64).checkSize maxSizeCurrent = .ok () ∧ (∃ bs, (b 64).encode = .ok bs ∧ readAll read bs = .ok (b 64)) ∧
      (b 2000001).lengths = [2, 1, 5, 0, 1, 0, 2, 0, 1] ++ 2000001 :: [1] ∧
      ∃ bs, (b 2000001).encode = .ok bs ∧ readAll read bs = .error (.oversized 2000001) := by
  intro stake b
  have hsize : (b 64).checkSize maxSizeCurrent = .ok () := by decide +kernel
  have hl : ∀ n, (b n).lengths = [2, 1, 5, 0, 1, 0, 2, 0, 1] ++ n :: [1] := by
    intro n
    have hn : (b n).signature.length = n := List.length_replicate
    show [2, 1, 5, 0, 1, 0, 2, 0, 1] ++ (b n).signature.length :: [1] = _
    rw [hn]
  obtain ⟨-, small, -⟩ := read_encode (b 64)
  obtain ⟨large, -, refused⟩ := read_encode (b 2000001)
  have he : ∃ bs, (b 2000001).encode = .ok bs := by
    cases he : (b 2000001).encode with
    | ok bs => exact ⟨bs, rfl⟩
    | error fault =>
      rcases refused.1 ⟨fault, he⟩ with hno | ⟨-, hno⟩ | ⟨-, hno⟩
      · exact absurd rfl hno
      · cases hno
      · cases hno
  obtain ⟨bs, he⟩ := he
  have hlt : ∀ n ∈ (b 2000001).lengths, n < 2 ^ 64 := by
    rw [hl]
    decide
  exact ⟨hsize, small hsize, hl _, bs, he, (large bs he hlt).2 _ _ _ (hl _) (by decide) (by decide)⟩

end Block

end AuditChain
