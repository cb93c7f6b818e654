import AuditChain.Proofs.Reading
/-!
# The wire format is self-delimiting

A reader looks at the bytes from the front, so it has its answer before it knows what comes later. Unless
it runs out of bytes, it answers in the same way however they go on. `Settles` states this for a reader, and
it follows how readers are put together. So a block that is cut short is truncated and not misread, and a
block with bytes after it is a block with trailing bytes.
-/

namespace AuditChain

variable {α β : Type}

/-! ## Readers in steps -/

namespace Reader

/-- The answer of a reader with `more` bytes left after its own. -/
def leaving (more : Bytes) (answer : Except ReadError (α × Bytes)) : Except ReadError (α × Bytes) :=
  answer.map fun (x, rest) => (x, rest ++ more)

/-- Unless it runs out of bytes, the reader gives the same answer whatever bytes follow. -/
def Settles (reader : Reader α) : Prop :=
  ∀ bs more, reader bs = .error .truncated ∨ reader (bs ++ more) = leaving more (reader bs)

theorem settles_pure (x : α) : Settles (pure x) := fun _ _ => .inr rfl

theorem settles_throw (e : ReadError) : Settles (throw e : Reader α) := fun _ _ => .inr rfl

theorem settles_bind {reader : Reader α} {f : α → Reader β} (h : Settles reader) (hf : ∀ x, Settles (f x)) :
    Settles (reader >>= f) := by
  intro bs more
  simp only [bind, StateT.bind, Except.bind]
  rcases h bs more with ht | hs
  · exact .inl (by rw [ht])
  rw [hs]
  cases hr : reader bs with
  | error e => exact .inr rfl
  | ok p =>
    -- The additional bytes stand behind what the second reader is given.
    exact hf p.1 p.2 more

theorem settles_map {reader : Reader α} (f : α → β) (h : Settles reader) : Settles (f <$> reader) := by
  rw [← bind_pure_comp]
  exact settles_bind h fun x => settles_pure (f x)

theorem settles_ite {c : Prop} [Decidable c] {reader other : Reader α} (h : Settles reader) (h' : Settles other) :
    Settles (if c then reader else other) := by
  split
  · exact h
  · exact h'

/-- Bytes that are fewer than those of a value are truncated. -/
theorem Settles.readAll_front {reader : Reader α} (h : Settles reader) {bs front : Bytes} {x : α}
    (hr : readAll reader bs = .ok x) (hf : front <+: bs) (hne : front ≠ bs) :
    readAll reader front = .error .truncated := by
  obtain ⟨more, rfl⟩ := hf
  have hmore : more ≠ [] := fun hnil => hne (by rw [hnil, List.append_nil])
  unfold readAll
  rcases h front more with ht | hs
  · rw [ht]
  -- An answer without the missing bytes would have left them over.
  rw [of_readAll hr] at hs
  cases ha : reader front with
  | error e =>
    rw [ha] at hs
    cases hs
  | ok p =>
    rw [ha] at hs
    obtain ⟨-, hnil⟩ := Prod.mk.inj (Except.ok.inj hs)
    exact absurd (List.append_eq_nil_iff.1 hnil.symm).2 hmore

/-- Bytes after those of a value are trailing. -/
theorem Settles.readAll_append {reader : Reader α} (h : Settles reader) {bs more : Bytes} {x : α}
    (hr : readAll reader bs = .ok x) (hne : more ≠ []) :
    readAll reader (bs ++ more) = .error (.trailing more.length) := by
  have hx := of_readAll hr
  have hs := (h bs more).resolve_left (by rw [hx]; nofun)
  obtain ⟨b, tail, rfl⟩ := List.exists_cons_of_ne_nil hne
  unfold readAll
  rw [hs, hx]
  rfl

end Reader

open Reader

/-! ## Numbers, byte strings and lists -/

theorem settles_readFixed (n : Nat) : Settles (readFixed n) := by
  intro bs more
  unfold readFixed
  by_cases h : (bs.take n).length = n
  · have hn : n ≤ bs.length := by
      rw [List.length_take] at h
      omega
    right
    simp only [List.take_append_of_le_length hn, List.drop_append_of_le_length hn, h, dite_true]
    rfl
  · left
    rw [dif_neg h]

theorem settles_readLE (w : Nat) : Settles (readLE w) := settles_bind (settles_readFixed w) fun _ => settles_pure _

theorem settles_readWide (w least : Nat) : Settles (readWide w least) := by
  refine settles_bind (settles_readLE w) fun n => settles_ite ?_ (settles_pure n)
  exact settles_bind (settles_throw _) fun _ => settles_pure n

/-- The tag says how many bytes the number has, so a number is never taken for a shorter one. -/
theorem settles_readShortest : Settles readShortest := by
  refine settles_bind (settles_readLE 1) fun tag => ?_
  refine settles_ite (settles_readWide _ _) (settles_ite (settles_readWide _ _) (settles_ite (settles_readWide _ _) ?_))
  exact settles_pure tag

theorem settles_readCompactSize : Settles readCompactSize := by
  refine settles_bind settles_readShortest fun n => settles_ite ?_ (settles_pure n)
  exact settles_bind (settles_throw _) fun _ => settles_pure n

theorem settles_readBytes : Settles readBytes :=
  settles_bind settles_readCompactSize fun n => settles_bind (settles_readFixed n) fun _ => settles_pure _

theorem settles_readMany {item : Reader α} (h : Settles item) (n : Nat) (acc : List α) :
    Settles (readMany item n acc) := by
  induction n generalizing acc with
  | zero => exact settles_pure acc.reverse
  | succ n ih =>
    rw [readMany_succ]
    exact settles_bind h fun x => ih (x :: acc)

theorem settles_readList {item : Reader α} (h : Settles item) : Settles (readList item) :=
  settles_bind settles_readCompactSize fun n => settles_readMany h n []

/-! ## Types on the wire -/

theorem settles_uint32 : Settles (Wire.read : Reader UInt32) := settles_bind (settles_readLE 4) fun _ => settles_pure _

theorem settles_int32 : Settles (Wire.read : Reader Int32) := settles_bind (settles_readLE 4) fun _ => settles_pure _

theorem settles_int64 : Settles (Wire.read : Reader Int64) := settles_bind (settles_readLE 8) fun _ => settles_pure _

theorem settles_hash : Settles (Wire.read : Reader Hash256) := settles_readFixed 32

theorem settles_script : Settles (Wire.read : Reader Script) := settles_bind settles_readBytes fun _ => settles_pure _

theorem settles_outPoint : Settles (Wire.read : Reader OutPoint) :=
  settles_bind settles_hash fun _ => settles_bind settles_uint32 fun _ => settles_pure _

theorem settles_txIn : Settles (Wire.read : Reader TxIn) :=
  settles_bind settles_outPoint fun _ => settles_bind settles_script fun _ => settles_bind settles_uint32 fun _ =>
    settles_pure _

theorem settles_txOut : Settles (Wire.read : Reader TxOut) :=
  settles_bind settles_int64 fun _ => settles_bind settles_script fun _ => settles_pure _

theorem settles_transaction : Settles (Wire.read : Reader Transaction) := by
  refine settles_bind settles_int32 fun _ => settles_bind (settles_readList settles_txIn) fun _ => ?_
  exact settles_bind (settles_readList settles_txOut) fun _ => settles_bind settles_uint32 fun _ => settles_pure _

theorem settles_summary : Settles (Wire.read : Reader Summary) :=
  settles_bind settles_hash fun _ => settles_bind settles_uint32 fun _ => settles_bind settles_uint32 fun _ =>
    settles_pure _

theorem settles_commitment : Settles (Wire.read : Reader Commitment) :=
  settles_bind settles_hash fun _ => settles_bind settles_hash fun _ => settles_bind settles_hash fun _ =>
    settles_pure _

/-! ## Headers and blocks -/

theorem settles_header : Settles Header.read := by
  refine settles_bind settles_int32 fun version => settles_bind settles_hash fun _ => settles_bind settles_hash fun _ => ?_
  -- Whether a commitment follows is settled by the version.
  have rest : ∀ f : UInt32 → UInt32 → UInt32 → Header,
      Settles (do return f (← Wire.read) (← Wire.read) (← Wire.read)) := fun f =>
    settles_bind settles_uint32 fun _ => settles_bind settles_uint32 fun _ => settles_bind settles_uint32 fun _ =>
      settles_pure _
  exact settles_ite (settles_bind (settles_map some settles_commitment) fun _ => rest _)
    (settles_bind (settles_pure none) fun _ => rest _)

/-- Which fields follow is settled by the header and the transactions, which were read in full. -/
theorem settles_block : Settles Block.read := by
  refine settles_bind settles_header fun header => settles_bind (settles_readList settles_transaction) fun _ => ?_
  have rest : ∀ f : List Summary → Block,
      Settles (if header.isAudit then do return f (← readList Wire.read) else do return f (← pure [])) := fun f =>
    settles_ite (settles_bind (settles_readList settles_summary) fun _ => settles_pure _)
      (settles_bind (settles_pure []) fun _ => settles_pure _)
  exact settles_ite (settles_bind settles_readBytes fun _ => rest _) (settles_bind (settles_pure []) fun _ => rest _)

/-! ## Main theorem -/

/-- The bytes of a block say themselves where they end: with any of them missing at the end they are truncated, and any
after them are trailing. -/
theorem read_self_delimiting {bs : Bytes} {b : Block} (h : readAll Block.read bs = .ok b) :
    (∀ front, front <+: bs → front ≠ bs → readAll Block.read front = .error .truncated) ∧
    ∀ more, more ≠ [] → readAll Block.read (bs ++ more) = .error (.trailing more.length) :=
  ⟨fun _ => settles_block.readAll_front h, fun _ => settles_block.readAll_append h⟩

/-- An audit block with a coinstake. It can be cut where a block of another kind would end: before the signature, before
the summaries, and before a coinstake that asks for a signature. -/
theorem read_self_delimiting_audit :
    let header : Bytes := [100, 0, 0, 0] ++ List.replicate 160 0 ++ [1, 0, 0, 0, 2, 0, 0, 0, 3, 0, 0, 0]
    let stake : Bytes := [1, 0, 0, 0, 1] ++ List.replicate 32 8 ++ [0, 0, 0, 0, 0, 9, 0, 0, 0, 2] ++
      List.replicate 9 0 ++ [5, 0, 0, 0, 0, 0, 0, 0, 1, 81, 0, 0, 0, 0]
    let transactions : Bytes := header ++ (2 :: (stake ++ stake))
    let bs : Bytes := transactions ++ [2, 7, 7] ++ (1 :: (List.replicate 32 6 ++ [4, 0, 0, 0, 7, 0, 0, 0]))
    (∃ b, readAll Block.read bs = .ok b ∧ b.hasCoinstake = true ∧ b.signature = [7, 7] ∧ b.summaries.length = 1) ∧
    readAll Block.read (header ++ (2 :: stake)) = .error .truncated ∧
    readAll Block.read transactions = .error .truncated ∧
    readAll Block.read (transactions ++ [2, 7, 7]) = .error .truncated ∧
    readAll Block.read (bs ++ bs) = .error (.trailing bs.length) := by
  intro header stake transactions bs
  obtain ⟨b, hb, parts⟩ : ∃ b, readAll Block.read bs = .ok b ∧ b.hasCoinstake = true ∧ b.signature = [7, 7] ∧
      b.summaries.length = 1 := by
    let tx : Transaction := ⟨1, [⟨⟨⟨List.replicate 32 8, rfl⟩, 0⟩, ⟨[]⟩, 9⟩], [⟨0, ⟨[]⟩⟩, ⟨5, ⟨[81]⟩⟩], 0⟩
    let s : Summary := ⟨⟨List.replicate 32 6, rfl⟩, 4, 7⟩
    exact ⟨⟨⟨100, 0, 0, some ⟨0, 0, 0⟩, 1, 2, 3⟩, [tx, tx], [7, 7], [s]⟩, by decide +kernel, rfl, rfl, rfl⟩
  obtain ⟨front, append⟩ := read_self_delimiting hb
  refine ⟨⟨b, hb, parts⟩, front _ ?_ ?_, front _ ?_ ?_, front _ ?_ ?_, append bs ?_⟩ <;> decide +kernel

end AuditChain
