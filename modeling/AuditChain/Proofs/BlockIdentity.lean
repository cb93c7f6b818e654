import AuditChain.Proofs.MerkleBinding
import AuditChain.Proofs.Reading
import AuditChain.Proofs.Writing
/-!
# A block's name determines what was checked

The name of an audit block covers only its mined hash and its link, and no name covers the body. The
checks recompute the mined hash and the roots, so that all but the signature can be followed back to
what was hashed: from the name to the header, and from the roots in it to the transactions and
the summaries.
-/

namespace AuditChain

/-! ## What is hashed for a block -/

/-- What is hashed for the name. -/
def Header.identityBytes (h : Header) : Bytes :=
  match h.isAudit, h.audit with
  | true, some c => c.minedHash.toList ++ c.prevAudit.toList
  | _, _ => h.baseBytes

theorem Header.hash_eq (h : Header) : h.hash = hash256 h.identityBytes := by
  unfold Header.hash Header.identityBytes
  cases h.isAudit <;> cases h.audit <;> rfl

theorem Header.identityBytes_audit {h : Header} {c : Commitment} (ha : h.isAudit = true) (hc : h.audit = some c) :
    h.identityBytes = c.minedHash.toList ++ c.prevAudit.toList := by
  simp only [Header.identityBytes, ha, hc]

theorem Header.identityBytes_plain {h : Header} (hc : h.audit = none) : h.identityBytes = h.baseBytes := by
  unfold Header.identityBytes
  rw [hc]
  cases h.isAudit <;> rfl

/-- Names are taken of 64 bytes in an audit header and of 80 bytes in every other. -/
theorem Header.length_identityBytes {h : Header} (hl : h.isAudit = h.audit.isSome) :
    h.identityBytes.length = if h.isAudit then 64 else 80 := by
  cases hc : h.audit with
  | none =>
    rw [hc, Option.isSome_none] at hl
    rw [Header.identityBytes_plain hc, h.length_baseBytes, hl]
    rfl
  | some c =>
    rw [hc, Option.isSome_some] at hl
    rw [Header.identityBytes_audit hl hc, List.length_append, c.minedHash.length_toList, c.prevAudit.length_toList, hl]
    rfl

/-- Beside the candidate, an audit header has only its mined hash and its link. -/
theorem Header.eq_of_candidate_eq {h k : Header} {m n : Commitment} (hm : h.audit = some m) (hn : k.audit = some n)
    (hmined : m.minedHash = n.minedHash) (hprev : m.prevAudit = n.prevAudit) (hc : h.candidate? = k.candidate?) :
    h = k := by
  obtain ⟨version, prevBlock, merkleRoot, audit, time, bits, nonce⟩ := h
  obtain ⟨version', prevBlock', merkleRoot', audit', time', bits', nonce'⟩ := k
  obtain ⟨prevAudit, auditRoot, minedHash⟩ := m
  obtain ⟨prevAudit', auditRoot', minedHash'⟩ := n
  cases hm
  cases hn
  cases hmined
  cases hprev
  simp only [candidate?, Option.map_some, Option.some.injEq, Candidate.mk.injEq] at hc
  obtain ⟨rfl, rfl, rfl, rfl, rfl, rfl, rfl⟩ := hc
  rfl

namespace Block

/-- What is hashed for the check of the commitments of an audit block. -/
def auditHashed (b : Block) : List Bytes :=
  if b.header.isAudit then
    (b.header.candidate?.map Candidate.toBytes).toList ++ Merkle.hashed (b.summaries.map AuditChain.encode)
  else []

/-- What is hashed for the name of a block and for the checks of its commitments. -/
def hashed (b : Block) : List Bytes :=
  b.header.identityBytes :: (Merkle.hashed (b.transactions.map AuditChain.encode) ++ b.auditHashed)

/-! ## What the checks establish -/

/-- The header commits to the body. -/
structure Committed (b : Block) : Prop where
  layout : b.header.checkLayout = .ok ()
  merkleRoot : b.checkMerkleRoot = .ok ()
  audit : b.checkAudit = .ok ()

/-- No check looks at the signature. -/
theorem Committed.resigned {b : Block} (h : b.Committed) (signature : Bytes) :
    Committed { b with signature := signature } :=
  ⟨h.layout, h.merkleRoot, h.audit⟩

theorem hash_resigned (b : Block) (signature : Bytes) : hash { b with signature := signature } = b.hash := rfl

theorem merkleTree_eq (b : Block) :
    b.merkleTree = .ofLeaves ((b.transactions.map AuditChain.encode).map hash256) := by
  rw [List.map_map]
  rfl

theorem auditTree_eq (b : Block) : b.auditTree = .ofLeaves ((b.summaries.map AuditChain.encode).map hash256) := by
  rw [List.map_map]
  rfl

theorem of_checkMerkleRoot {b : Block} (h : b.checkMerkleRoot = .ok ()) :
    b.merkleTree.root = b.header.merkleRoot ∧ b.merkleTree.mutated = false := by
  unfold checkMerkleRoot at h
  dsimp only at h
  split at h
  · cases h
  · rename_i hroot
    split at h
    · cases h
    · rename_i hm
      exact ⟨not_not.1 hroot, by simpa using hm⟩

theorem summaries_eq_nil_of_checkAudit {b : Block} (ha : b.header.isAudit = false) (h : b.checkAudit = .ok ()) :
    b.summaries = [] := by
  simpa [checkAudit, ha] using h

theorem of_checkAudit {b : Block} {c : Commitment} (ha : b.header.isAudit = true) (hc : b.header.audit = some c)
    (h : b.checkAudit = .ok ()) :
    b.auditTree.root = c.auditRoot ∧ b.auditTree.mutated = false ∧ b.header.minedHash? = some c.minedHash := by
  simp only [checkAudit, ha, hc, bind, Except.bind, throw, throwThe, MonadExceptOf.throw] at h
  cases ho : checkOrder b.summaries with
  | error e => simp [ho] at h
  | ok _ =>
    by_cases hroot : b.auditTree.root = c.auditRoot
    · by_cases hm : b.auditTree.mutated = true
      · simp [ho, hroot, hm] at h
      · by_cases hmined : b.header.minedHash? = some c.minedHash
        · exact ⟨hroot, by simpa using hm, hmined⟩
        · simp [ho, hroot, hm, hmined] at h
    · simp [ho, hroot] at h

/-! ## From the name to the header -/

variable {all : List Bytes}

/-- The candidate of an audit block is determined by its mined hash. -/
theorem candidate_eq (hn : ¬ Collision all) {b c : Block} {m : Commitment} {n : Commitment} (hb : b.hashed ⊆ all)
    (hc : c.hashed ⊆ all) (ha : b.header.isAudit = true) (ha' : c.header.isAudit = true)
    (hm : b.header.minedHash? = some m.minedHash) (hm' : c.header.minedHash? = some n.minedHash)
    (h : m.minedHash = n.minedHash) : b.header.candidate? = c.header.candidate? := by
  have mem : ∀ {d : Block} {k : Candidate}, d.header.isAudit = true → d.header.candidate? = some k →
      k.toBytes ∈ d.hashed := by
    intro d k hd hk
    simp [hashed, auditHashed, hd, hk]
  obtain ⟨k, hk, hmine⟩ := Option.map_eq_some_iff.1 hm
  obtain ⟨k', hk', hmine'⟩ := Option.map_eq_some_iff.1 hm'
  have hbytes : k.toBytes = k'.toBytes :=
    eq_of_hash256_eq hn (hb (mem ha hk)) (hc (mem ha' hk')) (hmine.trans (h.trans hmine'.symm))
  rw [hk, hk', (delimited_candidate k k').eq_of_eq hbytes]

theorem header_eq (hn : ¬ Collision all) {b c : Block} (hb : b.Committed) (hc : c.Committed) (sb : b.hashed ⊆ all)
    (sc : c.hashed ⊆ all) (h : b.hash = c.hash) : b.header = c.header := by
  have hid : b.header.identityBytes = c.header.identityBytes := by
    refine eq_of_hash256_eq hn (sb List.mem_cons_self) (sc List.mem_cons_self) ?_
    rw [← Header.hash_eq, ← Header.hash_eq]
    exact h
  have lb := Header.checkLayout_eq_ok.1 hb.layout
  have lc := Header.checkLayout_eq_ok.1 hc.layout
  -- The length of what was hashed tells an audit header from the others.
  have hkind : b.header.isAudit = c.header.isAudit := by
    have hlen := congrArg List.length hid
    rw [Header.length_identityBytes lb, Header.length_identityBytes lc] at hlen
    cases hab : b.header.isAudit <;> cases hac : c.header.isAudit <;> simp [hab, hac] at hlen ⊢
  cases ha : b.header.isAudit with
  | false =>
    have hnone : b.header.audit = none := by simpa [ha] using lb
    have hnone' : c.header.audit = none := by simpa [← hkind, ha] using lc
    rw [Header.identityBytes_plain hnone, Header.identityBytes_plain hnone'] at hid
    exact Header.eq_of_baseBytes_eq (hnone.trans hnone'.symm) hid
  | true =>
    have ha' := hkind.symm.trans ha
    obtain ⟨m, hm⟩ := Option.isSome_iff_exists.1 (lb.symm.trans ha)
    obtain ⟨n, hm'⟩ := Option.isSome_iff_exists.1 (lc.symm.trans ha')
    rw [Header.identityBytes_audit ha hm, Header.identityBytes_audit ha' hm'] at hid
    obtain ⟨hmined, hprev⟩ := List.append_inj hid (m.minedHash.length_toList.trans n.minedHash.length_toList.symm)
    have hcand := candidate_eq hn sb sc ha ha' (of_checkAudit ha hm hb.audit).2.2
      (of_checkAudit ha' hm' hc.audit).2.2 (FixedBytes.ext hmined)
    exact Header.eq_of_candidate_eq hm hm' (FixedBytes.ext hmined) (FixedBytes.ext hprev) hcand

/-! ## From the roots to the body -/

/-- A list is determined by the root over the hashes of its items' encodings. -/
theorem items_eq {α : Type} {encode : α → Bytes} {xs ys : List α} (hn : ¬ Collision all) (hz : ∀ s ∈ all, hash256 s ≠ 0)
    (hd : ∀ x ∈ xs, ∀ y ∈ ys, Delimited encode x y) (hx : Merkle.hashed (xs.map encode) ⊆ all)
    (hy : Merkle.hashed (ys.map encode) ⊆ all) (hx64 : ∀ x ∈ xs.head?, (encode x).length ≠ 64)
    (hy64 : ∀ y ∈ ys.head?, (encode y).length ≠ 64)
    (mx : (Merkle.Tree.ofLeaves ((xs.map encode).map hash256)).mutated = false)
    (my : (Merkle.Tree.ofLeaves ((ys.map encode).map hash256)).mutated = false)
    (hroot : (Merkle.Tree.ofLeaves ((xs.map encode).map hash256)).root =
      (Merkle.Tree.ofLeaves ((ys.map encode).map hash256)).root) : xs = ys := by
  have hmap : xs.map encode = ys.map encode :=
    Merkle.contents_eq_of_root_eq hn hz hx hy (by simpa using hx64) (by simpa using hy64) mx my hroot
  exact eq_of_map_eq (fun x hx y hy => (hd x hx y hy).eq_of_eq) hmap

theorem transactions_eq (hn : ¬ Collision all) (hz : ∀ s ∈ all, hash256 s ≠ 0) {b c : Block} (hb : b.Committed)
    (hc : c.Committed) (sb : b.hashed ⊆ all) (sc : c.hashed ⊆ all) (fb : ∀ tx ∈ b.transactions, tx.Fits)
    (fc : ∀ tx ∈ c.transactions, tx.Fits) (hb64 : ∀ tx ∈ b.transactions.head?, (AuditChain.encode tx).length ≠ 64)
    (hc64 : ∀ tx ∈ c.transactions.head?, (AuditChain.encode tx).length ≠ 64) (h : b.header = c.header) :
    b.transactions = c.transactions := by
  have hsub : ∀ d : Block, Merkle.hashed (d.transactions.map AuditChain.encode) ⊆ d.hashed := by
    intro d s hs
    exact List.mem_cons_of_mem _ (List.mem_append_left _ hs)
  obtain ⟨rb, mb⟩ := of_checkMerkleRoot hb.merkleRoot
  obtain ⟨rc, mc⟩ := of_checkMerkleRoot hc.merkleRoot
  have hroot := rb.trans ((congrArg Header.merkleRoot h).trans rc.symm)
  rw [merkleTree_eq] at mb mc
  rw [merkleTree_eq, merkleTree_eq] at hroot
  exact items_eq hn hz (fun x hx y hy => delimited_transaction (fb x hx) (fc y hy)) (fun s hs => sb (hsub b hs))
    (fun s hs => sc (hsub c hs)) hb64 hc64 mb mc hroot

theorem summaries_eq (hn : ¬ Collision all) (hz : ∀ s ∈ all, hash256 s ≠ 0) {b c : Block} (hb : b.Committed)
    (hc : c.Committed) (sb : b.hashed ⊆ all) (sc : c.hashed ⊆ all) (h : b.header = c.header) :
    b.summaries = c.summaries := by
  cases ha : b.header.isAudit with
  | false => rw [summaries_eq_nil_of_checkAudit ha hb.audit, summaries_eq_nil_of_checkAudit (h ▸ ha) hc.audit]
  | true =>
    have ha' : c.header.isAudit = true := h ▸ ha
    have hsub : ∀ d : Block, d.header.isAudit = true →
        Merkle.hashed (d.summaries.map AuditChain.encode) ⊆ d.hashed := by
      intro d hd s hs
      refine List.mem_cons_of_mem _ (List.mem_append_right _ ?_)
      rw [auditHashed, if_pos hd]
      exact List.mem_append_right _ hs
    obtain ⟨m, hm⟩ := Option.isSome_iff_exists.1 ((Header.checkLayout_eq_ok.1 hb.layout).symm.trans ha)
    obtain ⟨rb, mb, -⟩ := of_checkAudit ha hm hb.audit
    obtain ⟨rc, mc, -⟩ := of_checkAudit ha' (h ▸ hm) hc.audit
    have hroot := rb.trans rc.symm
    rw [auditTree_eq] at mb mc
    rw [auditTree_eq, auditTree_eq] at hroot
    -- No summary is as long as a pair of hashes.
    have h64 : ∀ s : Summary, (AuditChain.encode s).length ≠ 64 := fun s => by rw [length_encode_summary]; decide
    exact items_eq hn hz (fun x _ y _ => delimited_summary x y) (fun s hs => sb (hsub b ha hs))
      (fun s hs => sc (hsub c ha' hs)) (fun s _ => h64 s) (fun s _ => h64 s) mb mc hroot

/-! ## Main theorem -/

/-- Two checked blocks of one name differ at most in their signatures, unless what was hashed for them
holds a collision or a string that hashes to zero, or one of them begins with a transaction that is
as long as a pair of hashes. -/
theorem eq_of_hash_eq {b c : Block} (hb : b.Committed) (hc : c.Committed) (fb : ∀ tx ∈ b.transactions, tx.Fits)
    (fc : ∀ tx ∈ c.transactions, tx.Fits) (h : b.hash = c.hash) :
    (b.header = c.header ∧ b.transactions = c.transactions ∧ b.summaries = c.summaries) ∨
    Collision (b.hashed ++ c.hashed) ∨ (∃ s ∈ b.hashed ++ c.hashed, hash256 s = 0) ∨
    (∃ tx, (b.transactions.head? = some tx ∨ c.transactions.head? = some tx) ∧ (AuditChain.encode tx).length = 64) := by
  by_contra hno
  simp only [not_or, not_exists, not_and] at hno
  obtain ⟨hne, hn, hz, h64⟩ := hno
  have sb : b.hashed ⊆ b.hashed ++ c.hashed := List.subset_append_left _ _
  have sc : c.hashed ⊆ b.hashed ++ c.hashed := List.subset_append_right _ _
  have hheader := header_eq hn hb hc sb sc h
  have htransactions := transactions_eq hn hz hb hc sb sc fb fc (fun tx ht => h64 tx (.inl ht))
    (fun tx ht => h64 tx (.inr ht)) hheader
  exact hne hheader htransactions (summaries_eq hn hz hb hc sb sc hheader)

/-- An audit block that was signed twice. -/
theorem eq_of_hash_eq_signed_twice :
    let header : Header := ⟨100, 0, 0, some ⟨0, 0, 0⟩, 1, 2, 3⟩
    let pay : Transaction := .coinbase 7 [⟨50, ⟨[81]⟩⟩]
    let move : Transaction := ⟨1, [⟨⟨0, 1⟩, ⟨[]⟩, 9⟩], [⟨20, ⟨[82]⟩⟩], 0⟩
    let b : Block := updateCommitments ⟨header, [pay, move], [1], [⟨0, 4, 5⟩]⟩
    let c : Block := { b with signature := [2] }
    b.Committed ∧ c.Committed ∧ b ≠ c ∧ b.hash = c.hash ∧
    ((b.header = c.header ∧ b.transactions = c.transactions ∧ b.summaries = c.summaries) ∨
      Collision (b.hashed ++ c.hashed) ∨ (∃ s ∈ b.hashed ++ c.hashed, hash256 s = 0) ∨
      (∃ tx, (b.transactions.head? = some tx ∨ c.transactions.head? = some tx) ∧ (AuditChain.encode tx).length = 64)) := by
  intro header pay move b c
  have hb : b.Committed := ⟨by decide +kernel, by decide +kernel, by decide +kernel⟩
  have hc : c.Committed := hb.resigned [2]
  have hhash : b.hash = c.hash := (hash_resigned b [2]).symm
  have hne : b ≠ c := by
    intro h
    have hs : ([1] : Bytes) = [2] := congrArg Block.signature h
    exact absurd hs (by decide)
  have fits : ∀ tx ∈ b.transactions, tx.Fits := by
    intro tx ht
    have hmem : tx ∈ [pay, move] := ht
    simp only [List.mem_cons, List.not_mem_nil, or_false] at hmem
    rcases hmem with rfl | rfl
    all_goals exact ⟨by decide, by decide, by decide, by decide⟩
  exact ⟨hb, hc, hne, hhash, eq_of_hash_eq hb hc fits fits hhash⟩

end Block

end AuditChain
