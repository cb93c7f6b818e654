import Mathlib.Data.Finset.Card
import Mathlib.Data.List.Induction
import Mathlib.Data.Set.Function
import AuditChain.Proofs.SharedCache
import AuditChain.Proofs.Writing
/-!
# The cache is a window of recent signatures

A cache lists the hashes of what was put in, the most recent first, and cuts the list off at its capacity. So a
signature is found just if it was put in, and fewer others than the capacity were put in or found since it was last
put in or found. The hash stands for the signature, unless two strings that a run hashes have one hash.
-/

namespace AuditChain

/-! ## The latest of some things -/

section Latest

variable {α : Type} [DecidableEq α] {a : α} {newer older : List α}

/-- Each thing at its first place. The most recent things stand in front. -/
def latest : List α → List α
  | [] => []
  | x :: xs => x :: (latest xs).erase x

@[simp] theorem mem_latest {xs : List α} : a ∈ latest xs ↔ a ∈ xs := by
  induction xs with
  | nil => simp [latest]
  | cons x xs ih =>
    by_cases h : a = x
    · simp [latest, h]
    · simp [latest, h, List.mem_erase_of_ne h, ih]

theorem nodup_latest (xs : List α) : (latest xs).Nodup := by
  induction xs with
  | nil => exact List.nodup_nil
  | cons x xs ih => exact List.nodup_cons.2 ⟨ih.not_mem_erase, ih.erase x⟩

theorem length_latest (xs : List α) : (latest xs).length = xs.toFinset.card := by
  have hset : (latest xs).toFinset = xs.toFinset := by
    ext
    simp
  rw [← List.toFinset_card_of_nodup (nodup_latest xs), hset]

/-- What is behind the newer things is not in their way. -/
theorem latest_append (h : a ∉ newer) (older : List α) :
    ∃ rest, latest (newer ++ a :: older) = latest newer ++ a :: rest := by
  induction newer with
  | nil => exact ⟨_, rfl⟩
  | cons x newer ih =>
    obtain ⟨hx, hnewer⟩ := not_or.1 (mt List.mem_cons.2 h)
    obtain ⟨rest, hrest⟩ := ih hnewer
    by_cases hmem : x ∈ latest newer
    · exact ⟨rest, by rw [List.cons_append, latest, hrest, List.erase_append_left _ hmem]; rfl⟩
    · refine ⟨rest.erase x, ?_⟩
      rw [List.cons_append, latest, hrest, List.erase_append_right _ hmem, List.erase_cons_tail (by simpa using hx), latest,
        List.erase_of_not_mem hmem]
      rfl

/-- A thing is among the latest `n` just if fewer than `n` others are newer. -/
theorem mem_take_latest_iff (h : a ∉ newer) {n : Nat} :
    a ∈ (latest (newer ++ a :: older)).take n ↔ newer.toFinset.card < n := by
  obtain ⟨rest, hrest⟩ := latest_append h older
  rw [hrest, ← length_latest, List.take_append, List.mem_append]
  have hfront : a ∉ (latest newer).take n := fun hmem => h (mem_latest.1 (List.mem_of_mem_take hmem))
  constructor
  · rintro (hmem | hmem)
    · exact absurd hmem hfront
    · -- The newer things alone would fill the `n` places.
      by_contra hlen
      rw [Nat.sub_eq_zero_of_le (by omega)] at hmem
      exact absurd hmem List.not_mem_nil
  · intro hlen
    obtain ⟨k, hk⟩ := Nat.exists_eq_add_of_lt hlen
    rw [show n - (latest newer).length = k + 1 by omega]
    exact .inr List.mem_cons_self

theorem take_erase_take (a : α) (n : Nat) (xs : List α) : ((xs.take (n + 1)).erase a).take n = (xs.erase a).take n := by
  induction xs generalizing n with
  | nil => rfl
  | cons x xs ih =>
    by_cases h : x = a
    · simp [h]
    · rw [List.take_succ_cons, List.erase_cons_tail (by simpa using h), List.erase_cons_tail (by simpa using h)]
      cases n with
      | zero => rfl
      | succ n => rw [List.take_succ_cons, List.take_succ_cons, ih]

/-- To have the latest `n` things it is enough to have had the latest `n` before. -/
theorem take_latest_cons (a : α) (n : Nat) (xs : List α) :
    (a :: ((latest xs).take n).erase a).take n = (latest (a :: xs)).take n := by
  cases n with
  | zero => rfl
  | succ n => rw [latest, List.take_succ_cons, List.take_succ_cons, take_erase_take]

end Latest

namespace SignatureCache

/-! ## What is looked up -/

/-- A signature, with what it signs and who signed it. -/
structure Signed where
  hash : Hash256
  signature : Bytes
  signer : PublicKey
deriving DecidableEq

namespace Signed

/-- What is hashed for it. -/
def bytes (s : Signed) : Bytes := entryBytes s.hash s.signature s.signer

/-- What a cache holds for it. -/
def key (s : Signed) : Hash256 := entry s.hash s.signature s.signer

/-- Its lengths fit the four bytes that they are written in. -/
structure Fits (s : Signed) : Prop where
  signature : s.signature.length < 2 ^ 32
  signer : s.signer.bytes.length < 2 ^ 32

variable {s t : Signed}

theorem bytes_inj (hs : s.Fits) (ht : t.Fits) (h : s.bytes = t.bytes) : s = t := by
  obtain ⟨-, hrest⟩ := List.append_inj h (s.hash.length_toList.trans t.hash.length_toList.symm)
  obtain ⟨hlen, hrest⟩ := List.append_inj hrest (by simp)
  obtain ⟨-, hrest⟩ := List.append_inj hrest (toLE_inj hs.signature ht.signature hlen)
  obtain ⟨hlen, -⟩ := List.append_inj hrest (by simp)
  obtain ⟨hhash, hsignature, hsigner⟩ := entryBytes_inj (toLE_inj hs.signer ht.signer hlen) h
  cases s
  cases t
  simp_all

end Signed

/-! ## Calls -/

inductive Call where
  | insert (s : Signed)
  | contains (s : Signed)

namespace Call

/-- What a call is about. -/
def signed : Call → Signed
  | insert s => s
  | contains s => s

@[simp] theorem signed_insert (s : Signed) : (insert s).signed = s := rfl
@[simp] theorem signed_contains (s : Signed) : (contains s).signed = s := rfl

end Call

/-- The cache that a call leaves. -/
def after (c : SignatureCache) : Call → SignatureCache
  | .insert s => c.insert s.hash s.signature s.signer
  | .contains s => (c.contains s.hash s.signature s.signer).2

/-- What a call puts in or finds. -/
def touched? (c : SignatureCache) : Call → Option Signed
  | .insert s => some s
  | .contains s => if (c.contains s.hash s.signature s.signer).1 then some s else none

/-- The cache that some calls leave. -/
def run (c : SignatureCache) (calls : List Call) : SignatureCache := calls.foldl after c

/-- What some calls put in or find, in order. -/
def touched (c : SignatureCache) : List Call → List Signed
  | [] => []
  | call :: calls => (c.touched? call).toList ++ touched (c.after call) calls

variable {c : SignatureCache} {calls : List Call} {call : Call} {s : Signed} {log : List Signed}

theorem run_concat (c : SignatureCache) (calls : List Call) (call : Call) :
    c.run (calls ++ [call]) = (c.run calls).after call := by
  simp [run]

theorem touched_concat (c : SignatureCache) (calls : List Call) (call : Call) :
    c.touched (calls ++ [call]) = c.touched calls ++ ((c.run calls).touched? call).toList := by
  induction calls generalizing c with
  | nil => simp [touched, run]
  | cons first calls ih => simp [touched, ih, run]

theorem contains_eq (c : SignatureCache) (s : Signed) :
    c.contains s.hash s.signature s.signer = if s.key ∈ c.recent then (true, c.touch s.key) else (false, c) := rfl

theorem found_iff : (c.contains s.hash s.signature s.signer).1 = true ↔ s.key ∈ c.recent := by
  rw [contains_eq]
  split <;> simp_all

/-- A call makes what it touches the most recent, and changes nothing else. -/
theorem after_eq (c : SignatureCache) (call : Call) :
    c.after call = ((c.touched? call).map fun s => c.touch s.key).getD c := by
  cases call with
  | insert s => rfl
  | contains s =>
    rw [after, touched?, contains_eq]
    split <;> simp

theorem capacity_after (c : SignatureCache) (call : Call) : (c.after call).capacity = c.capacity := by
  rw [after_eq]
  cases c.touched? call <;> rfl

theorem capacity_run (c : SignatureCache) (calls : List Call) : (c.run calls).capacity = c.capacity := by
  induction calls using List.reverseRecOn with
  | nil => rfl
  | append_singleton calls call ih => rw [run_concat, capacity_after, ih]

theorem signed_of_touched? (h : s ∈ c.touched? call) : call.signed = s := by
  cases call with
  | insert t => exact Option.some.inj h
  | contains t =>
    rw [touched?] at h
    split at h
    · exact Option.some.inj h
    · cases h

/-- Only what calls are about is touched. -/
theorem touched_subset (c : SignatureCache) (calls : List Call) : c.touched calls ⊆ calls.map Call.signed := by
  induction calls generalizing c with
  | nil => exact List.Subset.refl []
  | cons call calls ih =>
    intro s hs
    rcases List.mem_append.1 hs with hs | hs
    · exact List.mem_cons.2 (.inl (signed_of_touched? (Option.mem_toList.1 hs)).symm)
    · exact List.mem_cons_of_mem _ (ih _ hs)

theorem touched_subset_of_contains (c : SignatureCache) (before rest : List Call) (s : Signed) :
    {t | t ∈ s :: c.touched before} ⊆ {t | t ∈ (before ++ Call.contains s :: rest).map Call.signed} := by
  intro t ht
  rcases List.mem_cons.1 ht with rfl | ht
  · simp
  · have hbefore := touched_subset c before ht
    simpa using Or.inl (List.mem_map.1 hbefore)

/-! ## The window -/

/-- The cache holds the latest of what was touched, up to its capacity. The log has the most recent first. -/
def Window (c : SignatureCache) (log : List Signed) : Prop :=
  c.recent = (latest (log.map Signed.key)).take c.capacity

theorem window_new (capacity : Nat) : (new capacity).Window [] := (List.take_nil).symm

theorem Window.after (h : c.Window log) (call : Call) : (c.after call).Window ((c.touched? call).toList ++ log) := by
  rw [after_eq]
  cases c.touched? call with
  | none => exact h
  | some s =>
    show (s.key :: c.recent.erase s.key).take c.capacity = _
    rw [h]
    exact take_latest_cons s.key c.capacity (log.map Signed.key)

theorem Window.run (h : c.Window []) (calls : List Call) : (c.run calls).Window (c.touched calls).reverse := by
  induction calls using List.reverseRecOn with
  | nil => exact h
  | append_singleton calls call ih =>
    have hlog : (c.touched (calls ++ [call])).reverse =
        ((c.run calls).touched? call).toList ++ (c.touched calls).reverse := by
      rw [touched_concat]
      cases (c.run calls).touched? call <;> simp
    rw [run_concat, hlog]
    exact ih.after call

theorem Window.size_le (h : c.Window log) : c.size ≤ c.capacity := by
  rw [size, h]
  exact List.length_take_le _ _

/-- Where hashes tell things apart, those that are newer count one by one. -/
theorem Window.mem_recent_iff {newer older : List Signed} (h : c.Window (newer ++ s :: older)) (hs : s ∉ newer)
    (hinj : Set.InjOn Signed.key {t | t ∈ s :: newer}) : s.key ∈ c.recent ↔ newer.toFinset.card < c.capacity := by
  have hkey : s.key ∉ newer.map Signed.key := by
    rintro hmem
    obtain ⟨t, ht, heq⟩ := List.mem_map.1 hmem
    exact hs (hinj (List.mem_cons_of_mem s ht) List.mem_cons_self heq ▸ ht)
  have hcard : (newer.map Signed.key).toFinset.card = newer.toFinset.card := by
    have himage : (newer.map Signed.key).toFinset = newer.toFinset.image Signed.key := by
      ext
      simp
    rw [himage]
    exact Finset.card_image_of_injOn (hinj.mono fun t ht => List.mem_cons_of_mem s (List.mem_toFinset.1 ht))
  rw [h, List.map_append, List.map_cons, mem_take_latest_iff hkey, hcard]

/-- What is found was touched, and fewer others than the capacity were touched since. -/
theorem Window.mem_recent_iff_exists (h : c.Window log.reverse) (hinj : Set.InjOn Signed.key {t | t ∈ s :: log}) :
    s.key ∈ c.recent ↔
      ∃ earlier later, log = earlier ++ s :: later ∧ s ∉ later ∧ later.toFinset.card < c.capacity := by
  have hcard : ∀ {earlier later : List Signed}, log = earlier ++ s :: later → s ∉ later →
      (s.key ∈ c.recent ↔ later.toFinset.card < c.capacity) := by
    rintro earlier later rfl hs
    rw [List.reverse_append, List.reverse_cons, List.append_assoc, List.singleton_append] at h
    have hnewer : {t | t ∈ s :: later.reverse} ⊆ {t | t ∈ s :: (earlier ++ s :: later)} := by
      intro t ht
      rcases List.mem_cons.1 ht with rfl | ht
      · exact List.mem_cons_self
      · have hlater : t ∈ later := by simpa using ht
        exact List.mem_cons_of_mem s (by simp [hlater])
    rw [h.mem_recent_iff (by simpa using hs) (hinj.mono hnewer), List.toFinset_reverse]
  constructor
  · intro hfound
    -- The key belongs to something that was touched, and that can only be `s`.
    have hkey : s.key ∈ log.reverse.map Signed.key := by
      rw [h] at hfound
      exact mem_latest.1 (List.mem_of_mem_take hfound)
    obtain ⟨t, ht, heq⟩ := List.mem_map.1 hkey
    rw [List.mem_reverse] at ht
    obtain rfl : t = s := hinj (List.mem_cons_of_mem s ht) List.mem_cons_self heq
    obtain ⟨later, earlier, hlog, hs⟩ := List.eq_append_cons_of_mem (List.mem_reverse.2 ht)
    have hlog : log = earlier.reverse ++ t :: later.reverse := by simpa using congrArg List.reverse hlog
    have hs : t ∉ later.reverse := by simpa using hs
    exact ⟨_, _, hlog, hs, (hcard hlog hs).1 hfound⟩
  · rintro ⟨earlier, later, hlog, hs, hlt⟩
    exact (hcard hlog hs).2 hlt

/-- Whatever is touched was put in. -/
theorem insert_mem_of_touched (h : c.Window []) (hinj : Set.InjOn Signed.key {t | t ∈ calls.map Call.signed})
    (hs : s ∈ c.touched calls) : .insert s ∈ calls := by
  -- On the calls from the back: the last lookup found what an earlier call touched.
  induction calls using List.reverseRecOn with
  | nil => cases hs
  | append_singleton calls call ih =>
    have hinj' : Set.InjOn Signed.key {t | t ∈ calls.map Call.signed} :=
      hinj.mono fun t ht => by simpa using Or.inl ht
    rw [touched_concat, List.mem_append, Option.mem_toList] at hs
    rcases hs with hs | hs
    · exact List.mem_append_left _ (ih hinj' hs)
    cases call with
    | insert t =>
      obtain rfl : t = s := signed_of_touched? hs
      simp
    | contains t =>
      obtain rfl : t = s := signed_of_touched? hs
      have hfound : t.key ∈ (c.run calls).recent := by
        rw [← found_iff]
        by_contra hno
        simp [touched?, hno] at hs
      -- What is found was touched before.
      have hwindow := (h.run calls).mem_recent_iff_exists (hinj.mono (touched_subset_of_contains c calls [] t))
      obtain ⟨earlier, later, hlog, -, -⟩ := hwindow.1 hfound
      exact List.mem_append_left _ (ih hinj' (by simp [hlog]))

theorem key_injOn (hfits : ∀ call ∈ calls, call.signed.Fits) (hn : ¬ Collision (calls.map fun call => call.signed.bytes)) :
    Set.InjOn Signed.key {s | s ∈ calls.map Call.signed} := by
  rintro s hs t ht heq
  obtain ⟨call, hcall, rfl⟩ := List.mem_map.1 hs
  obtain ⟨call', hcall', rfl⟩ := List.mem_map.1 ht
  have hbytes := eq_of_hash256_eq hn (List.mem_map_of_mem hcall) (List.mem_map_of_mem hcall') heq
  exact Signed.bytes_inj (hfits call hcall) (hfits call' hcall') hbytes

/-! ## Main theorem -/

/-- A cache never holds more than its capacity, and a lookup that fails leaves it as it was. A signature is found just
if it was put in, and fewer others than the capacity were put in or found since it was last put in or found. The one
exception is that two different strings of the run have one hash. -/
theorem contains_iff_recent (capacity : Nat) (calls : List Call) :
    ((new capacity).run calls).size ≤ max capacity 1 ∧
    (∀ s : Signed, (((new capacity).run calls).contains s.hash s.signature s.signer).1 = false →
      (((new capacity).run calls).contains s.hash s.signature s.signer).2 = (new capacity).run calls) ∧
    ((∀ call ∈ calls, call.signed.Fits) → Collision (calls.map fun call => call.signed.bytes) ∨
      ∀ before s rest, calls = before ++ .contains s :: rest →
        ((((new capacity).run before).contains s.hash s.signature s.signer).1 = true ↔
          .insert s ∈ before ∧ ∃ earlier later, (new capacity).touched before = earlier ++ s :: later ∧
            s ∉ later ∧ later.toFinset.card < max capacity 1)) := by
  have hcapacity : ∀ calls, ((new capacity).run calls).capacity = max capacity 1 := capacity_run (new capacity)
  refine ⟨?_, fun s hs => ?_, fun hfits => or_iff_not_imp_left.2 ?_⟩
  · rw [← hcapacity calls]
    exact ((window_new capacity).run calls).size_le
  · rw [contains_eq] at hs ⊢
    split at hs
    · cases hs
    · rename_i hmem
      rw [if_neg hmem]
  · rintro hn before s rest rfl
    have hinj := key_injOn hfits hn
    have hbefore : Set.InjOn Signed.key {t | t ∈ before.map Call.signed} :=
      hinj.mono fun t ht => by simpa using Or.inl (List.mem_map.1 ht)
    have hwindow := ((window_new capacity).run before).mem_recent_iff_exists
      (hinj.mono (touched_subset_of_contains (new capacity) before rest s))
    rw [found_iff, hwindow, hcapacity]
    constructor
    · rintro ⟨earlier, later, hlog, hs, hlt⟩
      exact ⟨insert_mem_of_touched (window_new capacity) hbefore (by simp [hlog]), earlier, later, hlog, hs, hlt⟩
    · rintro ⟨-, hlatest⟩
      exact hlatest

/-- With room for two, the second of three is gone when the first was looked up in between. -/
theorem contains_iff_recent_of_two :
    let s : UInt8 → Signed := fun n => ⟨0, [n], ⟨[n]⟩⟩
    let before : List Call := [.insert (s 1), .insert (s 2), .contains (s 1), .insert (s 3)]
    let calls : List Call := before ++ [.contains (s 2), .contains (s 1)]
    (∀ call ∈ calls, call.signed.Fits) ∧ ¬ Collision (calls.map fun call => call.signed.bytes) ∧
      ((new 2).run calls).size ≤ 2 ∧ (new 2).touched before = [s 1, s 2, s 1, s 3] ∧
      (((new 2).run before).contains (s 2).hash (s 2).signature (s 2).signer).1 = false ∧
      (((new 2).run (before ++ [.contains (s 2)])).contains (s 1).hash (s 1).signature (s 1).signer).1 = true := by
  intro s before calls
  have hfits : ∀ call ∈ calls, call.signed.Fits := by
    have hs : ∀ n, (s n).Fits := fun n => ⟨(by decide : 1 < 2 ^ 32), (by decide : 1 < 2 ^ 32)⟩
    simp [calls, before, hs]
  have hn : ¬ Collision (calls.map fun call => call.signed.bytes) := by
    unfold Collision
    decide +kernel
  have hlog : (new 2).touched before = [s 1, s 2, s 1, s 3] := by decide +kernel
  obtain ⟨hsize, -, hrecent⟩ := contains_iff_recent 2 calls
  have hrecent := (hrecent hfits).resolve_left hn
  refine ⟨hfits, hn, hsize, hlog, ?_, ?_⟩
  · rw [← Bool.not_eq_true]
    intro hfound
    obtain ⟨-, earlier, later, htouched, hlater, hcard⟩ := (hrecent before (s 2) [.contains (s 1)] rfl).1 hfound
    rw [hlog] at htouched
    -- The two touched since are the first and the third.
    obtain rfl : [s 1, s 3] = later := by
      match earlier, htouched with
      | [_], htouched => exact (List.cons.inj (List.cons.inj htouched).2).2
      | [], htouched | [_, _], htouched | [_, _, _], htouched | _ :: _ :: _ :: _ :: _, htouched => simp [s] at htouched
    exact absurd hcard (by simp [s])
  · have hlog' : (new 2).touched (before ++ [.contains (s 2)]) = [s 1, s 2] ++ s 1 :: [s 3] := by decide +kernel
    have hlast := hrecent (before ++ [.contains (s 2)]) (s 1) [] rfl
    refine hlast.2 ⟨by simp [before], [s 1, s 2], [s 3], ?_, ?_, ?_⟩
    · exact hlog'
    · simp [s]
    · simp

end SignatureCache

end AuditChain
