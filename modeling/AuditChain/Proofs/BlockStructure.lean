import AuditChain.Block
/-!
# Well-formed blocks

The check of a block's structure looks for coinbases first, by their single input that spends nothing, and then at
each transaction by itself, where a coinbase is excused from spending real outputs. Together this comes to a statement
about all inputs of the block: the only one that spends nothing is that of the first transaction.
-/

namespace AuditChain

namespace Transaction

variable {tx : Transaction}

/-- What is asked of every transaction, coinbases included. -/
structure Complete (tx : Transaction) : Prop where
  inputs : tx.inputs ≠ []
  outputs : tx.outputs ≠ []
  values : ∀ output ∈ tx.outputs, 0 ≤ output.value.toInt

theorem isCoinbase_eq_true_iff : tx.isCoinbase = true ↔ ∃ input, tx.inputs = [input] ∧ input.prevout = .null := by
  unfold isCoinbase OutPoint.isNull
  match tx.inputs with
  | [] => simp
  | [input] => simp
  | _ :: _ :: _ => simp

theorem negativeValue?_eq_none_iff :
    tx.outputs.findIdx? (·.value < 0) = none ↔ ∀ output ∈ tx.outputs, 0 ≤ output.value.toInt := by
  simp [List.findIdx?_eq_none_iff, Int64.lt_iff_toInt_lt]

theorem nullPrevout?_eq_none_iff :
    tx.inputs.findIdx? (·.prevout.isNull) = none ↔ ∀ input ∈ tx.inputs, input.prevout ≠ .null := by
  simp [List.findIdx?_eq_none_iff, OutPoint.isNull]

theorem checkStructure_eq_ok_iff :
    tx.checkStructure = .ok () ↔ tx.Complete ∧ (tx.isCoinbase = true ∨ ∀ input ∈ tx.inputs, input.prevout ≠ .null) := by
  unfold checkStructure
  constructor
  · intro h
    split at h
    · cases h
    rename_i hinputs
    split at h
    · cases h
    rename_i houtputs
    split at h
    · cases h
    rename_i hvalues
    refine ⟨⟨by simpa using hinputs, by simpa using houtputs, negativeValue?_eq_none_iff.1 hvalues⟩, ?_⟩
    split at h
    · exact .inl ‹_›
    · split at h
      · cases h
      · exact .inr (nullPrevout?_eq_none_iff.1 ‹_›)
  · rintro ⟨⟨hinputs, houtputs, hvalues⟩, hspends⟩
    rw [if_neg (by simpa using hinputs), if_neg (by simpa using houtputs), negativeValue?_eq_none_iff.2 hvalues]
    dsimp only
    split
    · rfl
    · rename_i hcoinbase
      rw [nullPrevout?_eq_none_iff.2 (hspends.resolve_left hcoinbase)]

end Transaction

namespace Block

variable {b : Block}

theorem checkTransactions_eq_ok_iff {txs : List Transaction} :
    checkTransactions txs = .ok () ↔ ∀ tx ∈ txs, tx.checkStructure = .ok () := by
  induction txs with
  | nil => simp [checkTransactions]
  | cons tx rest ih => cases htx : tx.checkStructure <;> simp [checkTransactions, htx, ih]

/-- The first transaction creates coins, and all inputs of the others spend something. -/
structure WellFormed (b : Block) : Prop where
  complete : ∀ tx ∈ b.transactions, tx.Complete
  coinbase : ∃ first rest input, b.transactions = first :: rest ∧ first.inputs = [input] ∧ input.prevout = .null
  /-- No other input of the block has a null outpoint. -/
  only : ∀ i j tx input, b.transactions[i]? = some tx → tx.inputs[j]? = some input → input.prevout = .null →
    i = 0 ∧ j = 0

/-- A transaction that creates coins, before others that do not: the same, transaction by transaction. -/
structure Led (first : Transaction) (rest : List Transaction) : Prop where
  coinbase : first.isCoinbase = true
  complete : ∀ tx ∈ first :: rest, tx.Complete
  spends : ∀ tx ∈ rest, ∀ input ∈ tx.inputs, input.prevout ≠ .null

section

variable {first : Transaction} {rest : List Transaction}

theorem Led.not_coinbase (h : Led first rest) : ∀ tx ∈ rest, tx.isCoinbase = false := by
  intro tx htx
  cases hcoinbase : tx.isCoinbase with
  | false => rfl
  | true =>
    obtain ⟨input, hinputs, hnull⟩ := Transaction.isCoinbase_eq_true_iff.1 hcoinbase
    exact absurd hnull (h.spends tx htx input (by simp [hinputs]))

/-- A transaction is excused from spending something only as a coinbase, and past the first no coinbase is let through. -/
theorem checkStructure_cons_eq_ok_iff (h : b.transactions = first :: rest) :
    b.checkStructure = .ok () ↔ Led first rest := by
  unfold checkStructure
  rw [h]
  dsimp only
  constructor
  · intro hok
    split at hok
    · cases hok
    rename_i hguard
    obtain ⟨hfirst, hrest⟩ : first.isCoinbase = true ∧ ∀ tx ∈ rest, tx.isCoinbase = false := by simpa using hguard
    have hall : ∀ tx ∈ first :: rest, _ := fun tx htx =>
      Transaction.checkStructure_eq_ok_iff.1 (checkTransactions_eq_ok_iff.1 hok tx htx)
    refine ⟨hfirst, fun tx htx => (hall tx htx).1, fun tx htx => ?_⟩
    exact (hall tx (List.mem_cons_of_mem _ htx)).2.resolve_left (by simp [hrest tx htx])
  · intro hled
    rw [if_neg (by simpa [hled.coinbase] using hled.not_coinbase), checkTransactions_eq_ok_iff]
    intro tx htx
    refine Transaction.checkStructure_eq_ok_iff.2 ⟨hled.complete tx htx, ?_⟩
    rcases List.mem_cons.1 htx with rfl | htx
    · exact .inl hled.coinbase
    · exact .inr (hled.spends tx htx)

theorem wellFormed_cons_iff (h : b.transactions = first :: rest) : b.WellFormed ↔ Led first rest := by
  constructor
  · rintro ⟨hcomplete, ⟨first', rest', input, h', hinputs, hnull⟩, honly⟩
    obtain ⟨rfl, rfl⟩ := List.cons.inj (h.symm.trans h')
    refine ⟨Transaction.isCoinbase_eq_true_iff.2 ⟨input, hinputs, hnull⟩, h ▸ hcomplete, ?_⟩
    intro tx htx input' hinput hnull'
    obtain ⟨i, hi⟩ := List.mem_iff_getElem?.1 htx
    obtain ⟨j, hj⟩ := List.mem_iff_getElem?.1 hinput
    have hplace : b.transactions[i + 1]? = some tx := by rw [h, List.getElem?_cons_succ, hi]
    exact Nat.succ_ne_zero i (honly (i + 1) j tx input' hplace hj hnull').1
  · rintro ⟨hfirst, hcomplete, hspends⟩
    obtain ⟨input, hinputs, hnull⟩ := Transaction.isCoinbase_eq_true_iff.1 hfirst
    refine ⟨h ▸ hcomplete, ⟨first, rest, input, h, hinputs, hnull⟩, ?_⟩
    intro i j tx input' htx hinput hnull'
    rw [h] at htx
    cases i with
    | zero =>
      -- a coinbase has no second input
      obtain rfl : first = tx := by simpa using htx
      rw [hinputs] at hinput
      have hj : j < 1 := (List.getElem?_eq_some_iff.1 hinput).1
      exact ⟨rfl, Nat.lt_one_iff.1 hj⟩
    | succ i =>
      rw [List.getElem?_cons_succ] at htx
      exact absurd hnull' (hspends tx (List.mem_of_getElem? htx) input' (List.mem_of_getElem? hinput))

end

/-! ## Main theorem -/

/-- A block passes the check just if its transactions have inputs and outputs, none of a negative value, and the single
input of the first transaction is the only one in the whole block that spends nothing. -/
theorem checkStructure_eq_ok_iff_wellFormed (b : Block) : b.checkStructure = .ok () ↔ b.WellFormed := by
  cases h : b.transactions with
  | nil =>
    have hfault : b.checkStructure ≠ .ok () := by simp [checkStructure, h]
    refine iff_of_false hfault fun hformed => ?_
    obtain ⟨first, rest, _, hcons, -⟩ := hformed.coinbase
    cases h.symm.trans hcons
  | cons first rest => exact (checkStructure_cons_eq_ok_iff h).trans (wellFormed_cons_iff h).symm

/-- A null outpoint beside a real one makes no coinbase, and is refused for itself. -/
example :
    let spend : TxIn := ⟨⟨0, 1⟩, .empty, 0⟩
    let mixed : Transaction := ⟨1, [spend, ⟨.null, .empty, 0⟩], [⟨5, .empty⟩], 0⟩
    (Block.mk default [.coinbase 9 [⟨5, .empty⟩], mixed] [] []).checkStructure = .error (.transaction (.nullPrevout 1)) :=
  rfl

end Block

end AuditChain
