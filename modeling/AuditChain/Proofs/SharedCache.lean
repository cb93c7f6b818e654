import Mathlib.Data.List.Induction
import AuditChain.Block.Signature
import AuditChain.Proofs.Hashing
import AuditChain.Proofs.SignerRecovery
/-!
# Verdicts through a shared cache

Verifiers with classifiers of their own may share one cache of signatures. Every entry of the cache
stands for a signature that verified, and an entry fixes the signed hash, the signature and the
signer. So a verdict that the cache gives is the one that a check without a cache gives.
-/

namespace AuditChain

/-! ## Entries -/

namespace SignatureCache

/-- The key has a known length, so the bytes of an entry can be taken apart again. -/
theorem entryBytes_inj {hash hash' : Hash256} {signature signature' : Bytes} {signer signer' : PublicKey}
    (hl : signer.bytes.length = signer'.bytes.length)
    (h : entryBytes hash signature signer = entryBytes hash' signature' signer') :
    hash = hash' ∧ signature = signature' ∧ signer = signer' := by
  unfold entryBytes at h
  obtain ⟨h1, h⟩ := List.append_inj h (by rw [hash.length_toList, hash'.length_toList])
  obtain ⟨-, h⟩ := List.append_inj h (by simp)
  have hs : signature.length = signature'.length := by
    have := congrArg List.length h
    simp only [List.length_append, length_toLE] at this
    omega
  obtain ⟨h2, h⟩ := List.append_inj h hs
  obtain ⟨-, h3⟩ := List.append_inj h (by simp)
  refine ⟨FixedBytes.ext h1, h2, ?_⟩
  cases signer
  cases signer'
  exact congrArg PublicKey.mk h3

theorem mem_touch {c : SignatureCache} {key e : Hash256} (h : e ∈ (c.touch key).recent) : e = key ∨ e ∈ c.recent := by
  unfold touch at h
  rcases List.mem_cons.1 (List.mem_of_mem_take h) with rfl | h
  · exact .inl rfl
  · exact .inr (List.mem_of_mem_erase h)

end SignatureCache

/-! ## One call -/

theorem Block.isValid_of_expectedSigner {classify : Script.Classifier} {b : Block} {key : PublicKey}
    (h : b.expectedSigner classify = .ok (some key)) : key.isValid = true := by
  unfold Block.expectedSigner at h
  split at h
  · cases h
  split at h
  · split at h <;> cases h
  split at h
  · cases h
  split at h
  · cases h
  split at h
  · cases h
  · rename_i hk
    cases h
    exact Block.isValid_of_recoverSigner hk

/-- What a check through a cache can do, by what it finds out on its way. -/
inductive Block.Checks (classify : Script.Classifier) (cache : SignatureCache) (b : Block) :
    Except SignatureError Unit × SignatureCache → Prop
  | refused {e} : b.expectedSigner classify = .error e → Checks classify cache b (.error e, cache)
  | unsigned : b.expectedSigner classify = .ok none → Checks classify cache b (.ok (), cache)
  | hit {key} : b.expectedSigner classify = .ok (some key) →
      SignatureCache.entry b.hash b.signature key ∈ cache.recent →
      Checks classify cache b (.ok (), cache.touch (SignatureCache.entry b.hash b.signature key))
  | verified {key} : b.expectedSigner classify = .ok (some key) → b.verifyWith key = .ok () →
      Checks classify cache b (.ok (), cache.touch (SignatureCache.entry b.hash b.signature key))
  | mismatch {key e} : b.expectedSigner classify = .ok (some key) → b.verifyWith key = .error e →
      Checks classify cache b (.error e, cache)

theorem Block.checks (classify : Script.Classifier) (cache : SignatureCache) (b : Block) :
    b.Checks classify cache (b.checkSignatureCached classify cache) := by
  unfold Block.checkSignatureCached SignatureCache.contains
  split
  · rename_i he; exact .refused he
  · rename_i he; exact .unsigned he
  · rename_i key he
    by_cases hm : SignatureCache.entry b.hash b.signature key ∈ cache.recent
    · simp only [hm, if_true]
      exact .hit he hm
    · simp only [hm, if_false]
      split
      · rename_i hv; exact .verified he hv
      · rename_i e hv; exact .mismatch he hv

/-- A work block names no signer. -/
theorem Block.expectedSigner_of_work {classify : Script.Classifier} {b : Block} {key : PublicKey} (hk : b.kind = .work) :
    b.expectedSigner classify ≠ .ok (some key) := by
  unfold Block.expectedSigner
  rw [hk]
  split
  · exact fun h => nomatch h
  · simp only [Kind.requiresSignature, Bool.not_false, if_true]
    split <;> exact fun h => nomatch h

/-- A call that fails, or that concerns a work block, does not touch the cache. -/
theorem Block.cache_unchanged {classify : Script.Classifier} {cache : SignatureCache} {b : Block}
    (h : (b.checkSignatureCached classify cache).1 ≠ .ok () ∨ b.kind = .work) :
    (b.checkSignatureCached classify cache).2 = cache := by
  have hc := b.checks classify cache
  generalize b.checkSignatureCached classify cache = result at h hc
  cases hc with
  | refused | unsigned | mismatch => rfl
  | hit he | verified he =>
    rcases h with h | h
    · exact absurd rfl h
    · exact absurd he (Block.expectedSigner_of_work h)

/-! ## Runs -/

/-- A call of a verifier: the classifier that the verifier has, and the block. -/
structure Verification where
  classify : Script.Classifier
  block : Block

namespace Verification

/-- What is hashed to look up the signature, if the call gets as far as that. -/
def preimage? (v : Verification) : Option Bytes :=
  match v.block.expectedSigner v.classify with
  | .ok (some key) => some (SignatureCache.entryBytes v.block.hash v.block.signature key)
  | _ => none

/-- The cache that the call leaves. -/
def cacheAfter (cache : SignatureCache) (v : Verification) : SignatureCache :=
  (v.block.checkSignatureCached v.classify cache).2

theorem mem_preimages {calls : List Verification} {v : Verification} {key : PublicKey} (hv : v ∈ calls)
    (he : v.block.expectedSigner v.classify = .ok (some key)) :
    SignatureCache.entryBytes v.block.hash v.block.signature key ∈ calls.filterMap preimage? := by
  refine List.mem_filterMap.2 ⟨v, hv, ?_⟩
  unfold preimage?
  rw [he]

/-- A cache with one place holds the entry of the last signature that verified. -/
theorem cacheAfter_of_one_place {v : Verification} {key : PublicKey}
    (hk : v.block.expectedSigner v.classify = .ok (some key)) (hv : v.block.verifyWith key = .ok ())
    (recent : List Hash256) :
    cacheAfter ⟨1, recent⟩ v = ⟨1, [SignatureCache.entry v.block.hash v.block.signature key]⟩ := by
  have htouch : ∀ entry, SignatureCache.touch ⟨1, recent⟩ entry = ⟨1, [entry]⟩ := fun entry => by
    simp [SignatureCache.touch]
  unfold cacheAfter
  have hc := v.block.checks v.classify ⟨1, recent⟩
  generalize v.block.checkSignatureCached v.classify ⟨1, recent⟩ = result at hc
  cases hc with
  | refused he | unsigned he => cases hk.symm.trans he
  | hit he | verified he =>
    cases hk.symm.trans he
    exact htouch _
  | mismatch he hv' =>
    cases hk.symm.trans he
    cases hv.symm.trans hv'

end Verification

open Verification

/-- What calls that share a cache leave of it, if it was empty before them. -/
def SignatureCache.shared (capacity : Nat) (calls : List Verification) : SignatureCache :=
  calls.foldl cacheAfter (new capacity)

open SignatureCache

theorem shared_append (capacity : Nat) (calls : List Verification) (v : Verification) :
    shared capacity (calls ++ [v]) = cacheAfter (shared capacity calls) v := by
  unfold shared
  rw [List.foldl_append]
  rfl

/-- Each entry belongs to one of the calls, and the signature of that call verified. -/
def Vouched (calls : List Verification) (cache : SignatureCache) : Prop :=
  ∀ e ∈ cache.recent, ∃ v ∈ calls, ∃ key, v.block.expectedSigner v.classify = .ok (some key) ∧
    v.block.verifyWith key = .ok () ∧ e = entry v.block.hash v.block.signature key

theorem vouched_step {calls : List Verification} {cache : SignatureCache} (h : Vouched calls cache) (v : Verification) :
    Vouched (calls ++ [v]) (cacheAfter cache v) := by
  have kept : Vouched (calls ++ [v]) cache := by
    intro e he
    obtain ⟨u, hu, hkey⟩ := h e he
    exact ⟨u, List.mem_append_left _ hu, hkey⟩
  unfold cacheAfter
  have hc := v.block.checks v.classify cache
  generalize v.block.checkSignatureCached v.classify cache = result at hc
  cases hc with
  | refused | unsigned | mismatch => exact kept
  | hit _ hm =>
    intro e he
    rcases mem_touch he with rfl | he
    · exact kept _ hm
    · exact kept e he
  | @verified key hk hv =>
    intro e he
    rcases mem_touch he with rfl | he
    · exact ⟨v, by simp, key, hk, hv, rfl⟩
    · exact kept e he

theorem vouched_shared (capacity : Nat) (calls : List Verification) : Vouched calls (shared capacity calls) := by
  induction calls using List.reverseRecOn with
  | nil =>
    intro e he
    cases he
  | append_singleton calls v ih =>
    rw [shared_append]
    exact vouched_step ih v

/-- An entry that was found belongs to an earlier call with the same hash, signature and signer. -/
theorem verifyWith_of_hit {calls : List Verification} {cache : SignatureCache} (hc : Vouched calls cache)
    {v : Verification} (hn : ¬ Collision ((calls ++ [v]).filterMap preimage?)) {key : PublicKey}
    (hk : v.block.expectedSigner v.classify = .ok (some key))
    (hm : entry v.block.hash v.block.signature key ∈ cache.recent) : v.block.verifyWith key = .ok () := by
  obtain ⟨u, hu, key', hk', hv, he⟩ := hc _ hm
  have hb := eq_of_hash256_eq hn (mem_preimages (by simp) hk) (mem_preimages (List.mem_append_left _ hu) hk') he
  have hl := PublicKey.length_of_isValid (Block.isValid_of_expectedSigner hk)
  have hl' := PublicKey.length_of_isValid (Block.isValid_of_expectedSigner hk')
  obtain ⟨hh, hs, rfl⟩ := entryBytes_inj (hl.trans hl'.symm) hb
  unfold Block.verifyWith at hv ⊢
  rw [hh, hs]
  exact hv

theorem verdict_step {calls : List Verification} {cache : SignatureCache} (hc : Vouched calls cache)
    {v : Verification} (hn : ¬ Collision ((calls ++ [v]).filterMap preimage?)) :
    (v.block.checkSignatureCached v.classify cache).1 = v.block.checkSignature v.classify := by
  unfold Block.checkSignature
  have h := v.block.checks v.classify cache
  generalize v.block.checkSignatureCached v.classify cache = result at h
  cases h with
  | refused hk | unsigned hk => rw [hk]
  | hit hk hm => rw [hk]; exact (verifyWith_of_hit hc hn hk hm).symm
  | verified hk hv | mismatch hk hv => rw [hk]; exact hv.symm

/-! ## Main theorem -/

/-- Whatever calls share a cache, each gives the verdict of a check without a cache, unless two
different strings that the calls hash into entries have one hash. Calls that fail and calls for work
blocks leave the cache as it was, and each entry is that of a signature that verified. -/
theorem shared_cache_sound (capacity : Nat) (calls : List Verification) :
    (Collision (calls.filterMap preimage?) ∨
      ∀ before v after, calls = before ++ v :: after →
        v.block.verify v.classify (some (shared capacity before)) =
          (v.block.checkSignature v.classify, some (shared capacity (before ++ [v])))) ∧
    (∀ before v after, calls = before ++ v :: after →
      (v.block.verify v.classify (some (shared capacity before))).1 ≠ .ok () ∨ v.block.kind = .work →
        shared capacity (before ++ [v]) = shared capacity before) ∧
    Vouched calls (shared capacity calls) := by
  refine ⟨or_iff_not_imp_left.2 ?_, ?_, vouched_shared capacity calls⟩
  · rintro hn before v after rfl
    have hs : (before ++ [v]).filterMap preimage? ⊆ (before ++ v :: after).filterMap preimage? := by
      rw [List.append_cons before v after]
      exact ((List.sublist_append_left (before ++ [v]) after).filterMap preimage?).subset
    have hv := verdict_step (vouched_shared capacity before) fun hc => hn (hc.mono hs)
    rw [shared_append, ← hv]
    rfl
  · rintro before v after rfl h
    rw [shared_append]
    exact Block.cache_unchanged h

/-- A cache with one place. A signature that one verifier checked is found by another that classifies scripts
differently, and then makes way for the next one. -/
theorem shared_cache_sound_one_place :
    let key : KeyPair := ⟨⟨List.replicate 32 1, rfl⟩⟩
    let stake : Transaction := ⟨1, [⟨⟨0, 1⟩, .empty, 0⟩], [⟨0, .empty⟩, ⟨5, .payToKey key.publicKey⟩], 0⟩
    let bare (time : UInt32) : Block := ⟨{ (default : Header) with time := time }, [.coinbase 9 [], stake], [], []⟩
    let b (time : UInt32) : Block := { bare time with signature := key.sign (bare time).hash.toList }
    let bytes (time : UInt32) : Bytes := entryBytes (b time).hash (b time).signature key.publicKey
    let first : Verification := ⟨.of true, b 1⟩
    let again : Verification := ⟨.of false, b 1⟩
    let next : Verification := ⟨.of true, b 2⟩
    let calls : List Verification := [first, again, next]
    calls.filterMap preimage? = [bytes 1, bytes 1, bytes 2] ∧ ¬ Collision (calls.filterMap preimage?) ∧
      shared 1 [first] = ⟨1, [hash256 (bytes 1)]⟩ ∧
      again.block.verify again.classify (some (shared 1 [first])) =
        (again.block.checkSignature again.classify, some (shared 1 [first])) ∧
      again.block.checkSignature again.classify = .ok () ∧
      next.block.verify next.classify (some (shared 1 [first, again])) =
        (next.block.checkSignature next.classify, some ⟨1, [hash256 (bytes 2)]⟩) ∧
      next.block.checkSignature next.classify = .ok () ∧ hash256 (bytes 2) ≠ hash256 (bytes 1) := by
  intro key stake bare b bytes first again next calls
  -- All three need the signatures, so they are evaluated at once.
  have hcrypto : first.block.verifyWith key.publicKey = .ok () ∧ next.block.verifyWith key.publicKey = .ok () ∧
      hash256 (bytes 2) ≠ hash256 (bytes 1) := by decide +kernel
  obtain ⟨hverify, hverify', hne⟩ := hcrypto
  have hfirst : first.block.expectedSigner first.classify = .ok (some key.publicKey) := by decide +kernel
  have hagain : again.block.expectedSigner again.classify = .ok (some key.publicKey) := by decide +kernel
  have hnext : next.block.expectedSigner next.classify = .ok (some key.publicKey) := by decide +kernel
  -- Nothing else depends on what the blocks and the key are.
  clear_value b bare stake key
  have hbytes : calls.filterMap preimage? = [bytes 1, bytes 1, bytes 2] := by
    simp only [calls, List.filterMap_cons, preimage?, hfirst, hagain, hnext, List.filterMap_nil]
    rfl
  have hdistinct : ∀ x y : Bytes, hash256 y ≠ hash256 x → ¬ Collision [x, x, y] := by
    rintro x y hxy ⟨u, hu, v, hv, huv, hhash⟩
    simp only [List.mem_cons, List.not_mem_nil, or_false] at hu hv
    grind
  have hn : ¬ Collision (calls.filterMap preimage?) := hbytes ▸ hdistinct _ _ hne
  have hshared : shared 1 [first] = ⟨1, [hash256 (bytes 1)]⟩ :=
    (shared_append 1 [] first).trans (cacheAfter_of_one_place hfirst hverify [])
  have hfound : shared 1 [first, again] = ⟨1, [hash256 (bytes 1)]⟩ := by
    rw [← List.singleton_append, shared_append, hshared]
    exact cacheAfter_of_one_place hagain hverify _
  have hevicted : shared 1 ([first, again] ++ [next]) = ⟨1, [hash256 (bytes 2)]⟩ := by
    rw [shared_append, hfound]
    exact cacheAfter_of_one_place hnext hverify' _
  have hcheck : again.block.checkSignature again.classify = .ok () := by
    rw [Block.checkSignature, hagain]
    exact hverify
  have hcheck' : next.block.checkSignature next.classify = .ok () := by
    rw [Block.checkSignature, hnext]
    exact hverify'
  obtain ⟨verdicts, -, -⟩ := shared_cache_sound 1 calls
  have verdict := verdicts.resolve_left hn [first] again [next] rfl
  have verdict' := verdicts.resolve_left hn [first, again] next [] rfl
  rw [List.singleton_append, hfound, ← hshared] at verdict
  rw [hevicted] at verdict'
  exact ⟨hbytes, hn, hshared, verdict, hcheck, verdict', hcheck', hne⟩

end AuditChain
