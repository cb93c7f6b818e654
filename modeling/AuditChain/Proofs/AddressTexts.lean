import AuditChain.Hash
import AuditChain.Net.Reading
import AuditChain.Proofs.Scanning
import AuditChain.Proofs.Texts
/-!
# Addresses and hexadecimal text are one word

What reads as an endpoint consists of hexadecimal digits and a few signs, and none of these is a blank.
-/

namespace AuditChain

open Text (isBlank IsWord Unbroken)

/-! ## Hexadecimal text -/

namespace Hex

theorem toNat_of_value? {c : Char} (h : (value? c).isSome) :
    (48 ≤ c.toNat ∧ c.toNat ≤ 57) ∨ (97 ≤ c.toNat ∧ c.toNat ≤ 102) ∨ (65 ≤ c.toNat ∧ c.toNat ≤ 70) := by
  unfold value? at h
  split at h
  · rename_i hc
    exact .inl hc
  split at h
  · rename_i hc
    exact .inr (.inl hc)
  split at h
  · rename_i hc
    exact .inr (.inr hc)
  · cases h

theorem isBlank_of_value? {c : Char} (h : (value? c).isSome) : isBlank c = false := by
  have hrange := toNat_of_value? h
  simp only [isBlank, Bool.or_eq_false_iff, Bool.and_eq_false_iff, decide_eq_false_iff_not, beq_eq_false_iff_ne]
  omega

theorem unbroken_of_ofChars? {cs : List Char} {bs : Bytes} (h : ofChars? cs = some bs) : Unbroken cs := by
  fun_induction ofChars? cs generalizing bs with
  | case1 => exact Text.unbroken_nil
  | case2 => cases h
  | case3 c d cs ih =>
    obtain ⟨high, hc, h⟩ := Option.bind_eq_some_iff.1 h
    obtain ⟨low, hd, h⟩ := Option.bind_eq_some_iff.1 h
    obtain ⟨more, hmore, -⟩ := Option.bind_eq_some_iff.1 h
    have blank : ∀ {c n}, value? c = some n → isBlank c = false := fun hv =>
      isBlank_of_value? (Option.isSome_of_eq_some hv)
    exact Text.unbroken_cons.2 ⟨blank hc, Text.unbroken_cons.2 ⟨blank hd, ih hmore⟩⟩

end Hex

theorem FixedBytes.isWord_of_ofHex? {n : Nat} {text : String} {b : FixedBytes n} (hn : 0 < n)
    (h : FixedBytes.ofHex? n text = some b) : IsWord text.toList := by
  obtain ⟨bs, hbs, hb⟩ := Option.bind_eq_some_iff.1 h
  refine ⟨fun hnil => ?_, Hex.unbroken_of_ofChars? hbs⟩
  rw [Hex.decode?, hnil] at hbs
  obtain rfl := Option.some.inj hbs
  have hlen := b.length_toList
  rw [← FixedBytes.ofList?_eq_some_iff.1 hb] at hlen
  exact absurd hlen (Nat.ne_of_lt hn)

/-! ## Addresses and endpoints -/

namespace Net

open Scanner

/-- A character that an endpoint can hold. -/
def IsAddressChar (c : Char) : Prop := isDigit 16 c = true ∨ c ∈ [':', '.', '[', ']', '%']

theorem isDigit_mono {radix radix' : Nat} {c : Char} (hle : radix ≤ radix') (h : isDigit radix c = true) :
    isDigit radix' c = true := by
  simp only [isDigit, digitValue?, Option.isSome_filter, Option.any_eq_true, decide_eq_true_eq] at h ⊢
  obtain ⟨n, hn, hlt⟩ := h
  exact ⟨n, hn, by omega⟩

theorem rest_of_number {radix limit n : Nat} {allowed : List Char → Bool} {cs rest : List Char}
    (h : number radix limit allowed cs = some (n, rest)) : rest = cs.dropWhile (isDigit radix) := by
  unfold number at h
  dsimp only at h
  split at h
  · cases h
    rfl
  · cases h

theorem takes_number {radix limit : Nat} {allowed : List Char → Bool} (h : radix ≤ 16) :
    Takes IsAddressChar (number radix limit allowed) := by
  intro cs n rest hrun
  obtain rfl := rest_of_number hrun
  refine ⟨cs.takeWhile (isDigit radix), List.takeWhile_append_dropWhile.symm, fun c hc => ?_⟩
  exact .inl (isDigit_mono h (List.all_eq_true.1 List.all_takeWhile c hc))

theorem takes_octet : Takes IsAddressChar octet := takes_bind (takes_number (by decide)) fun _ => takes_pure _

theorem takes_dot : Takes IsAddressChar (char '.') := takes_char (.inr (by decide))

theorem takes_ipv4 : Takes IsAddressChar ipv4 :=
  takes_bind takes_octet fun _ => takes_bind takes_dot fun _ =>
    takes_bind takes_octet fun _ => takes_bind takes_dot fun _ =>
      takes_bind takes_octet fun _ => takes_bind takes_dot fun _ => takes_bind takes_octet fun _ => takes_pure _

theorem takes_group : Takes IsAddressChar group := takes_bind (takes_number (by decide)) fun _ => takes_pure _

theorem takes_separated {α : Type} {scan : Scanner α} (first : Bool) (h : Takes IsAddressChar scan) :
    Takes IsAddressChar (separated first scan) := by
  cases first with
  | true => exact takes_bind (takes_pure ()) fun _ => h
  | false => exact takes_bind (takes_char (.inr (by decide))) fun _ => h

theorem passes_groupRun (room : Nat) (first : Bool) (cs : List Char) :
    Passes IsAddressChar cs (groupRun room first cs).2.2 := by
  induction room generalizing first cs with
  | zero => exact passes_refl cs
  | succ room ih =>
    unfold groupRun
    split
    · rename_i ip rest hip
      split at hip
      · cases hip
      · exact takes_separated first takes_ipv4 _ _ _ hip
    · split
      · rename_i g rest hg
        exact (takes_separated first takes_group _ _ _ hg).trans (ih false rest)
      · exact passes_refl cs

theorem takes_ipv6 : Takes IsAddressChar ipv6 := by
  intro cs ip rest hrun
  have hhead := passes_groupRun 8 true cs
  unfold ipv6 at hrun
  generalize groupRun 8 true cs = run at hhead hrun
  obtain ⟨head, endsInIpv4, after⟩ := run
  dsimp only at hhead hrun
  split at hrun
  · obtain ⟨_, -, hrest⟩ := Option.map_eq_some_iff.1 hrun
    cases hrest
    exact hhead
  split at hrun
  · cases hrun
  split at hrun
  · rename_i tail
    obtain ⟨_, -, hrest⟩ := Option.map_eq_some_iff.1 hrun
    cases hrest
    have hcolon : IsAddressChar ':' := .inr (by decide)
    exact hhead.trans ((passes_cons hcolon _).trans ((passes_cons hcolon _).trans (passes_groupRun _ true tail)))
  · cases hrun

theorem takes_port : Takes IsAddressChar port :=
  takes_bind (takes_char (.inr (by decide))) fun _ => takes_bind (takes_number (by decide)) fun _ => takes_pure _

theorem takes_scope : Takes IsAddressChar scope :=
  takes_bind (takes_char (.inr (by decide))) fun _ => takes_bind (takes_number (by decide)) fun _ => takes_pure _

theorem takes_endpointV4 : Takes IsAddressChar endpointV4 :=
  takes_bind takes_ipv4 fun _ => takes_bind takes_port fun _ => takes_pure _

theorem takes_endpointV6 : Takes IsAddressChar endpointV6 :=
  takes_bind (takes_char (.inr (by decide))) fun _ => takes_bind takes_ipv6 fun _ =>
    takes_bind (takes_orElse takes_scope (takes_pure 0)) fun _ =>
      takes_bind (takes_char (.inr (by decide))) fun _ => takes_bind takes_port fun _ => takes_pure _

theorem isBlank_of_isAddressChar {c : Char} (h : IsAddressChar c) : isBlank c = false := by
  rcases h with h | h
  · refine Hex.isBlank_of_value? ?_
    simp only [isDigit, digitValue?, Option.isSome_filter, Option.any_eq_true] at h
    obtain ⟨n, hn, -⟩ := h
    exact Option.isSome_of_eq_some hn
  · have hmarks : ([':', '.', '[', ']', '%'].all fun c => !isBlank c) = true := by decide
    simpa using List.all_eq_true.1 hmarks c h

theorem Endpoint.isWord_of_ofChars? {cs : List Char} {e : Endpoint} (h : ofChars? cs = some e) : IsWord cs := by
  refine ⟨?_, fun c hc => isBlank_of_isAddressChar (of_whole? (takes_orElse takes_endpointV4 takes_endpointV6) h c hc)⟩
  rintro rfl
  cases h

end Net

end AuditChain
