import Mathlib.Data.List.Basic
import AuditChain.Bytes.Lemmas
import AuditChain.Block
/-!
# What writers leave

An encoding ends by itself: whatever follows it, it can be told where it ends and what it encodes.
Numbers are read back from their bytes. Lengths are written in up to eight bytes, so this holds of
byte strings and lists that are shorter than `2 ^ 64`.
-/

namespace AuditChain

variable {α β : Type}

/-! ## Numbers are read back -/

theorem Reader.bind_of_ok {reader : Reader α} {f : α → Reader β} {bs rest : Bytes} {x : α}
    (h : reader bs = .ok (x, rest)) : (reader >>= f) bs = f x rest := by
  simp [bind, StateT.bind, Except.bind, h]

theorem Reader.bind_of_error {reader : Reader α} {f : α → Reader β} {bs : Bytes} {e : ReadError}
    (h : reader bs = .error e) : (reader >>= f) bs = .error e := by
  simp [bind, StateT.bind, Except.bind, h]

theorem readFixed_append {n : Nat} (b : FixedBytes n) (rest : Bytes) :
    readFixed n (b.toList ++ rest) = .ok (b, rest) := by
  have htake : (b.toList ++ rest).take n = b.toList := List.take_left' b.length_toList
  have hdrop : (b.toList ++ rest).drop n = rest := List.drop_left' b.length_toList
  unfold readFixed
  simp only [htake, hdrop, b.length_toList, dite_true]

theorem readLE_append {w n : Nat} (h : n < 256 ^ w) (rest : Bytes) :
    readLE w (toLE w n ++ rest) = .ok (n, rest) := by
  have hb := readFixed_append ⟨toLE w n, length_toLE w n⟩ rest
  unfold readLE
  rw [Reader.bind_of_ok hb, ofLE_toLE, Nat.mod_eq_of_lt h]
  rfl

theorem readLE_cons (b : UInt8) (rest : Bytes) : readLE 1 (b :: rest) = .ok (b.toNat, rest) := by
  have h := readLE_append (w := 1) b.toNat_lt rest
  simpa [toLE] using h

theorem readWide_append {w least n : Nat} (hlo : least ≤ n) (hhi : n < 256 ^ w) (rest : Bytes) :
    readWide w least (toLE w n ++ rest) = .ok (n, rest) := by
  unfold readWide
  rw [Reader.bind_of_ok (readLE_append hhi rest), if_neg (by omega)]
  rfl

/-- A number is read back from its shortest form. -/
theorem readShortest_append {n : Nat} (h : n < 2 ^ 64) (rest : Bytes) :
    readShortest (compactSize n ++ rest) = .ok (n, rest) := by
  unfold readShortest compactSize
  split
  · rename_i h1
    rw [Reader.bind_of_ok (readLE_append (w := 1) (by omega) rest), if_neg (by omega), if_neg (by omega),
      if_neg (by omega)]
    rfl
  split
  · rw [List.cons_append, Reader.bind_of_ok (readLE_cons _ _), if_pos (by decide)]
    exact readWide_append (by omega) (by omega) rest
  split
  · rw [List.cons_append, Reader.bind_of_ok (readLE_cons _ _), if_neg (by decide), if_pos (by decide)]
    exact readWide_append (by omega) (by omega) rest
  · rw [List.cons_append, Reader.bind_of_ok (readLE_cons _ _), if_neg (by decide), if_neg (by decide), if_pos (by decide)]
    exact readWide_append (by omega) (by omega) rest

/-! ## Encodings that end by themselves -/

/-- With any bytes after them, the encodings of `x` and `y` agree only if `x` and `y` do. -/
def Delimited (encode : α → Bytes) (x y : α) : Prop :=
  ∀ ⦃r s⦄, encode x ++ r = encode y ++ s → x = y ∧ r = s

theorem Delimited.eq_of_eq {encode : α → Bytes} {x y : α} (h : Delimited encode x y) (he : encode x = encode y) :
    x = y :=
  (h (r := []) (s := []) (by rw [he])).1

/-- An encoding of one length for all values ends there. -/
theorem delimited_of_length {encode : α → Bytes} {x y : α} (hlen : (encode x).length = (encode y).length)
    (hinj : encode x = encode y → x = y) : Delimited encode x y := by
  intro r s h
  obtain ⟨he, hr⟩ := List.append_inj h hlen
  exact ⟨hinj he, hr⟩

/-- So does one encoding after the other. -/
theorem Delimited.prod {f : α → Bytes} {g : β → Bytes} {x y : α} {x' y' : β} (h : Delimited f x y)
    (h' : Delimited g x' y') : Delimited (fun p : α × β => f p.1 ++ g p.2) (x, x') (y, y') := by
  intro r s hp
  dsimp only at hp
  rw [List.append_assoc, List.append_assoc] at hp
  obtain ⟨rfl, htail⟩ := h hp
  obtain ⟨rfl, hrs⟩ := h' htail
  exact ⟨rfl, hrs⟩

theorem toLE_inj {w n m : Nat} (hn : n < 256 ^ w) (hm : m < 256 ^ w) (h : toLE w n = toLE w m) : n = m := by
  have he := congrArg ofLE h
  rwa [ofLE_toLE, ofLE_toLE, Nat.mod_eq_of_lt hn, Nat.mod_eq_of_lt hm] at he

theorem delimited_compactSize {n m : Nat} (hn : n < 2 ^ 64) (hm : m < 2 ^ 64) : Delimited compactSize n m := by
  intro r s h
  have he := (readShortest_append hn r).symm.trans ((congrArg readShortest h).trans (readShortest_append hm s))
  simpa using he

theorem delimited_encodeBytes {x y : Bytes} (hx : x.length < 2 ^ 64) (hy : y.length < 2 ^ 64) :
    Delimited encodeBytes x y := by
  intro r s h
  unfold encodeBytes at h
  rw [List.append_assoc, List.append_assoc] at h
  obtain ⟨hlen, h⟩ := delimited_compactSize hx hy h
  exact List.append_inj h hlen

theorem flatMap_append_inj {encode : α → Bytes} {xs ys : List α} {r s : Bytes}
    (hd : ∀ x ∈ xs, ∀ y ∈ ys, Delimited encode x y) (hlen : xs.length = ys.length)
    (h : xs.flatMap encode ++ r = ys.flatMap encode ++ s) : xs = ys ∧ r = s := by
  induction xs generalizing ys with
  | nil =>
    obtain rfl := List.length_eq_zero_iff.1 hlen.symm
    exact ⟨rfl, h⟩
  | cons x xs ih =>
    match ys, hlen with
    | y :: ys, hlen =>
      rw [List.flatMap_cons, List.flatMap_cons, List.append_assoc, List.append_assoc] at h
      obtain ⟨hxy, htail⟩ := hd x (by simp) y (by simp) h
      obtain ⟨hxys, hrs⟩ := ih (fun a ha b hb => hd a (by simp [ha]) b (by simp [hb])) (by simpa using hlen) htail
      exact ⟨by rw [hxy, hxys], hrs⟩

theorem delimited_encodeList {encode : α → Bytes} {xs ys : List α} (hd : ∀ x ∈ xs, ∀ y ∈ ys, Delimited encode x y)
    (hx : xs.length < 2 ^ 64) (hy : ys.length < 2 ^ 64) : Delimited (encodeList encode) xs ys := by
  intro r s h
  unfold encodeList at h
  rw [List.append_assoc, List.append_assoc] at h
  obtain ⟨hlen, h⟩ := delimited_compactSize hx hy h
  exact flatMap_append_inj hd hlen h

/-! ## Types on the wire -/

theorem delimited_uint32 (x y : UInt32) : Delimited encode x y := by
  refine delimited_of_length ((length_toLE 4 _).trans (length_toLE 4 _).symm) fun h => ?_
  exact UInt32.toNat_inj.1 (toLE_inj x.toNat_lt y.toNat_lt h)

theorem delimited_int32 (x y : Int32) : Delimited encode x y := by
  refine delimited_of_length ((length_toLE 4 _).trans (length_toLE 4 _).symm) fun h => ?_
  have he : x.toUInt32 = y.toUInt32 := UInt32.toNat_inj.1 (toLE_inj x.toUInt32.toNat_lt y.toUInt32.toNat_lt h)
  rw [← Int32.toInt32_toUInt32 x, he, Int32.toInt32_toUInt32]

theorem delimited_int64 (x y : Int64) : Delimited encode x y := by
  refine delimited_of_length ((length_toLE 8 _).trans (length_toLE 8 _).symm) fun h => ?_
  have he : x.toUInt64 = y.toUInt64 := UInt64.toNat_inj.1 (toLE_inj x.toUInt64.toNat_lt y.toUInt64.toNat_lt h)
  rw [← Int64.toInt64_toUInt64 x, he, Int64.toInt64_toUInt64]

theorem delimited_fixedBytes {n : Nat} (x y : FixedBytes n) : Delimited encode x y :=
  delimited_of_length (x.length_toList.trans y.length_toList.symm) FixedBytes.ext

theorem delimited_outPoint (x y : OutPoint) : Delimited encode x y := by
  obtain ⟨txid, vout⟩ := x
  obtain ⟨txid', vout'⟩ := y
  intro r s h
  obtain ⟨he, hrs⟩ := (delimited_fixedBytes txid txid').prod (delimited_uint32 vout vout') h
  cases he
  exact ⟨rfl, hrs⟩

theorem delimited_script {x y : Script} (hx : x.bytes.length < 2 ^ 64) (hy : y.bytes.length < 2 ^ 64) :
    Delimited encode x y := by
  obtain ⟨bytes⟩ := x
  obtain ⟨bytes'⟩ := y
  intro r s h
  obtain ⟨rfl, hrs⟩ := delimited_encodeBytes hx hy h
  exact ⟨rfl, hrs⟩

/-- The lengths of a transaction fit the eight bytes that a length is written in, as do those of all that a
machine can hold. -/
structure Transaction.Fits (tx : Transaction) : Prop where
  inputs : tx.inputs.length < 2 ^ 64
  outputs : tx.outputs.length < 2 ^ 64
  scriptSigs : ∀ i ∈ tx.inputs, i.scriptSig.bytes.length < 2 ^ 64
  scripts : ∀ o ∈ tx.outputs, o.script.bytes.length < 2 ^ 64

theorem delimited_txIn {x y : TxIn} (hx : x.scriptSig.bytes.length < 2 ^ 64) (hy : y.scriptSig.bytes.length < 2 ^ 64) :
    Delimited encode x y := by
  obtain ⟨prevout, scriptSig, sequence⟩ := x
  obtain ⟨prevout', scriptSig', sequence'⟩ := y
  intro r s h
  obtain ⟨he, hrs⟩ := (delimited_outPoint prevout prevout').prod
    ((delimited_script hx hy).prod (delimited_uint32 sequence sequence')) h
  cases he
  exact ⟨rfl, hrs⟩

theorem delimited_txOut {x y : TxOut} (hx : x.script.bytes.length < 2 ^ 64) (hy : y.script.bytes.length < 2 ^ 64) :
    Delimited encode x y := by
  obtain ⟨value, script⟩ := x
  obtain ⟨value', script'⟩ := y
  intro r s h
  obtain ⟨he, hrs⟩ := (delimited_int64 value value').prod (delimited_script hx hy) h
  cases he
  exact ⟨rfl, hrs⟩

theorem delimited_transaction {x y : Transaction} (hx : x.Fits) (hy : y.Fits) : Delimited encode x y := by
  obtain ⟨version, inputs, outputs, lockTime⟩ := x
  obtain ⟨version', inputs', outputs', lockTime'⟩ := y
  have hi : Delimited (encodeList encode) inputs inputs' :=
    delimited_encodeList (fun i hi j hj => delimited_txIn (hx.scriptSigs i hi) (hy.scriptSigs j hj)) hx.inputs hy.inputs
  have ho : Delimited (encodeList encode) outputs outputs' :=
    delimited_encodeList (fun o ho p hp => delimited_txOut (hx.scripts o ho) (hy.scripts p hp)) hx.outputs hy.outputs
  intro r s h
  obtain ⟨he, hrs⟩ := (delimited_int32 version version').prod (hi.prod (ho.prod (delimited_uint32 lockTime lockTime'))) h
  cases he
  exact ⟨rfl, hrs⟩

theorem delimited_summary (x y : Summary) : Delimited encode x y := by
  obtain ⟨hash, time, height⟩ := x
  obtain ⟨hash', time', height'⟩ := y
  intro r s h
  obtain ⟨he, hrs⟩ := (delimited_fixedBytes hash hash').prod
    ((delimited_uint32 time time').prod (delimited_uint32 height height')) h
  cases he
  exact ⟨rfl, hrs⟩

theorem delimited_candidate (x y : Candidate) : Delimited Candidate.toBytes x y := by
  obtain ⟨version, prevBlock, merkleRoot, auditRoot, time, bits, nonce⟩ := x
  obtain ⟨version', prevBlock', merkleRoot', auditRoot', time', bits', nonce'⟩ := y
  intro r s h
  have hnumbers := (delimited_uint32 time time').prod ((delimited_uint32 bits bits').prod (delimited_uint32 nonce nonce'))
  have hroots := (delimited_fixedBytes merkleRoot merkleRoot').prod
    ((delimited_fixedBytes auditRoot auditRoot').prod hnumbers)
  obtain ⟨he, hrs⟩ := (delimited_int32 version version').prod ((delimited_fixedBytes prevBlock prevBlock').prod hroots) h
  cases he
  exact ⟨rfl, hrs⟩

/-- The fields of every header, with the commitment given. -/
theorem Header.eq_of_baseBytes_eq {h k : Header} (ha : h.audit = k.audit) (he : h.baseBytes = k.baseBytes) : h = k := by
  obtain ⟨version, prevBlock, merkleRoot, audit, time, bits, nonce⟩ := h
  obtain ⟨version', prevBlock', merkleRoot', audit', time', bits', nonce'⟩ := k
  have hnumbers := (delimited_uint32 time time').prod ((delimited_uint32 bits bits').prod (delimited_uint32 nonce nonce'))
  have hfields := (delimited_int32 version version').prod ((delimited_fixedBytes prevBlock prevBlock').prod
    ((delimited_fixedBytes merkleRoot merkleRoot').prod hnumbers))
  cases ha
  cases hfields.eq_of_eq he
  rfl

theorem Header.length_baseBytes (h : Header) : h.baseBytes.length = 80 := by
  show (toLE 4 _ ++ (h.prevBlock.toList ++ (h.merkleRoot.toList ++ (toLE 4 _ ++ (toLE 4 _ ++ toLE 4 _))))).length = 80
  simp only [List.length_append, length_toLE, h.prevBlock.length_toList, h.merkleRoot.length_toList]

theorem length_encode_summary (s : Summary) : (encode s).length = 40 := by
  show (s.hash.toList ++ (toLE 4 _ ++ toLE 4 _)).length = 40
  simp [s.hash.length_toList]

end AuditChain
