import AuditChain.Proofs.Writing
/-!
# What a transaction id stands for

An id is the hash of an encoding and of nothing else, so it names what the encoding determines. The lengths in it
may be larger than any that is ever read back, so nothing here goes through the readers of transactions.
-/

namespace AuditChain.Transaction

/-- Two transactions with one id are the same, or their encodings are a collision. -/
theorem eq_or_collide_of_hash_eq {a b : Transaction} (ha : a.Fits) (hb : b.Fits) (h : a.hash = b.hash) :
    a = b ∨ (encode a ≠ encode b ∧ hash256 (encode a) = hash256 (encode b)) := by
  by_cases he : encode a = encode b
  · exact .inl ((delimited_transaction ha hb).eq_of_eq he)
  · exact .inr ⟨he, h⟩

/-! ## Coinbases -/

theorem fits_coinbase {height : UInt32} {outputs : List TxOut} (hlen : outputs.length < 2 ^ 64)
    (hscripts : ∀ o ∈ outputs, o.script.bytes.length < 2 ^ 64) : (coinbase height outputs).Fits where
  inputs := Nat.one_lt_two_pow (by decide)
  outputs := hlen
  scriptSigs i hi := by
    have hpush : (Script.push (encode height)).length = 5 := rfl
    rw [List.mem_singleton.1 hi, hpush]
    decide
  scripts := hscripts

/-- The height and the outputs of a coinbase are told from it. -/
theorem coinbase_inj {height height' : UInt32} {outputs outputs' : List TxOut}
    (h : coinbase height outputs = coinbase height' outputs') : height = height' ∧ outputs = outputs' := by
  simp only [coinbase, mk.injEq, List.cons.injEq, TxIn.mk.injEq, Script.mk.injEq, true_and, and_true] at h
  obtain ⟨hpush, houtputs⟩ := h
  -- Behind the byte for its length, which is the same for both, each push has the height.
  have hheight : encode height = encode height' := (List.cons.inj hpush).2
  exact ⟨(delimited_uint32 height height').eq_of_eq hheight, houtputs⟩

/-! ## Main theorem -/

/-- With lengths that fit the eight bytes that a length is written in: whatever follows it, the encoding of a
transaction tells the transaction and where it ends. So transactions with one id are the same unless their encodings
are a collision, and coinbases of different heights or outputs never have one encoding. -/
theorem encoding_commits :
    (∀ a b : Transaction, a.Fits → b.Fits → ∀ r s, encode a ++ r = encode b ++ s → a = b ∧ r = s) ∧
    (∀ a b : Transaction, a.Fits → b.Fits → a.hash = b.hash →
      a = b ∨ (encode a ≠ encode b ∧ hash256 (encode a) = hash256 (encode b))) ∧
    (∀ height height' outputs outputs',
      outputs.length < 2 ^ 64 → (∀ o ∈ outputs, o.script.bytes.length < 2 ^ 64) →
      outputs'.length < 2 ^ 64 → (∀ o ∈ outputs', o.script.bytes.length < 2 ^ 64) →
      (height ≠ height' ∨ outputs ≠ outputs') →
      encode (coinbase height outputs) ≠ encode (coinbase height' outputs')) := by
  refine ⟨fun a b ha hb r s h => delimited_transaction ha hb h, fun a b => eq_or_collide_of_hash_eq, ?_⟩
  intro height height' outputs outputs' hlen hscripts hlen' hscripts' hne he
  have hfits : (coinbase height outputs).Fits := fits_coinbase hlen hscripts
  have hfits' : (coinbase height' outputs').Fits := fits_coinbase hlen' hscripts'
  obtain ⟨hheight, houtputs⟩ := coinbase_inj ((delimited_transaction hfits hfits').eq_of_eq he)
  exact hne.elim (absurd hheight) (absurd houtputs)

/-- Coinbases whose output needs the wide form of a length. -/
theorem encoding_commits_wide :
    let outputs : List TxOut := [⟨5, ⟨List.replicate 253 7⟩⟩]
    let a := coinbase 1 outputs
    let b : Transaction := ⟨1, [⟨⟨0, 0xffffffff⟩, ⟨[4, 1, 0, 0, 0]⟩, 0xffffffff⟩], outputs, 0⟩
    a.Fits ∧ b.Fits ∧ encode a ++ [9] = encode b ++ [9] ∧ (a = b ∧ ([9] : Bytes) = [9]) ∧ a.hash = b.hash ∧
      (a = b ∨ (encode a ≠ encode b ∧ hash256 (encode a) = hash256 (encode b))) ∧
      encode a ≠ encode (coinbase 256 outputs) ∧ encode a ≠ encode (coinbase 1 []) := by
  intro outputs a b
  have hscripts : ∀ o ∈ outputs, o.script.bytes.length < 2 ^ 64 := by
    intro o ho
    rw [List.mem_singleton.1 ho, List.length_replicate]
    decide
  have hlen : outputs.length < 2 ^ 64 := Nat.one_lt_two_pow (by decide)
  have ha : a.Fits := fits_coinbase hlen hscripts
  have hb : b.Fits := ha
  obtain ⟨hread, hid, hcoinbase⟩ := encoding_commits
  exact ⟨ha, hb, rfl, hread a b ha hb [9] [9] rfl, rfl, hid a b ha hb rfl,
    hcoinbase 1 256 outputs outputs hlen hscripts hlen hscripts (.inl (by decide)),
    hcoinbase 1 1 outputs [] hlen hscripts (by decide) (by simp)
      (.inr (List.cons_ne_nil _ _))⟩

end AuditChain.Transaction
