import Mathlib.Data.List.Basic
import AuditChain.Proofs.AddressTexts
/-!
# Numbers and dotted addresses are read back

A number is read back in front of any text that does not go on with a digit. An IPv4 address is read back there
too, and hexadecimal digits start one only if a dot comes after them.
-/

namespace AuditChain.Net

open Scanner

variable {radix n : Nat} {c : Char} {cs rest : List Char}

/-! ## The digits of a number -/

/-- A radix in which numbers are written and read. -/
structure IsRadix (radix : Nat) : Prop where
  one_lt : 1 < radix
  le_sixteen : radix ≤ 16

theorem isRadix_ten : IsRadix 10 := ⟨by decide, by decide⟩

theorem isRadix_sixteen : IsRadix 16 := ⟨by decide, by decide⟩

theorem IsRadix.mod_lt (h : IsRadix radix) (n : Nat) : n % radix < radix := Nat.mod_lt n (Nat.zero_lt_of_lt h.one_lt)

/-- A number is a digit, or it has one digit more than its quotient. -/
theorem IsRadix.induction {motive : Nat → Prop} (h : IsRadix radix) (one : ∀ d < radix, motive d)
    (more : ∀ n, radix ≤ n → motive (n / radix) → motive n) (n : Nat) : motive n := by
  induction n using Nat.strongRecOn with
  | ind n ih =>
    by_cases hn : n < radix
    · exact one n hn
    · have hpos : 0 < n := Nat.lt_of_lt_of_le (Nat.zero_lt_of_lt h.one_lt) (Nat.le_of_not_lt hn)
      exact more n (Nat.le_of_not_lt hn) (ih (n / radix) (Nat.div_lt_self hpos h.one_lt))

theorem digitValue?_digitChar {d : Nat} (h : IsRadix radix) (hd : d < radix) :
    digitValue? radix d.digitChar = some d := by
  have hvalue : ∀ d < 16, Hex.value? d.digitChar = some d := by decide
  simp [digitValue?, hvalue d (Nat.lt_of_lt_of_le hd h.le_sixteen), hd]

theorem isDigit_digitChar {d : Nat} (h : IsRadix radix) (hd : d < radix) : isDigit radix d.digitChar = true := by
  simp [isDigit, digitValue?_digitChar h hd]

theorem isDigit_of_mem_toDigits (h : IsRadix radix) (n : Nat) : ∀ c ∈ Nat.toDigits radix n, isDigit radix c = true := by
  induction n using h.induction with
  | one d hd =>
    rw [Nat.toDigits_of_lt_base hd, List.forall_mem_singleton]
    exact isDigit_digitChar h hd
  | more n hn ih =>
    rw [Nat.toDigits_of_base_le h.one_lt hn, List.forall_mem_append, List.forall_mem_singleton]
    exact ⟨ih, isDigit_digitChar h (h.mod_lt n)⟩

theorem numberOf_concat (cs : List Char) (c : Char) :
    numberOf radix (cs ++ [c]) = numberOf radix cs * radix + (digitValue? radix c).getD 0 := by
  simp [numberOf]

theorem numberOf_toDigits (h : IsRadix radix) (n : Nat) : numberOf radix (Nat.toDigits radix n) = n := by
  induction n using h.induction with
  | one d hd => simp [Nat.toDigits_of_lt_base hd, numberOf, digitValue?_digitChar h hd]
  | more n hn ih =>
    rw [Nat.toDigits_of_base_le h.one_lt hn, numberOf_concat, ih, digitValue?_digitChar h (h.mod_lt n), Option.getD_some]
    exact Nat.div_add_mod' n radix

/-- Only zero is written with a zero in front. -/
theorem head?_toDigits (h : IsRadix radix) (hn : 0 < n) : (Nat.toDigits radix n).head? ≠ some '0' := by
  induction n using h.induction with
  | one d hd =>
    simp only [Nat.toDigits_of_lt_base hd, List.head?_cons, ne_eq, Option.some.injEq, Nat.digitChar_eq_zero]
    exact Nat.ne_of_gt hn
  | more n hle ih =>
    rw [Nat.toDigits_of_base_le h.one_lt hle, List.head?_append_of_ne_nil _ Nat.toDigits_ne_nil]
    exact ih (Nat.div_pos hle (Nat.zero_lt_of_lt h.one_lt))

/-! ## Numbers in front of other text -/

/-- The text does not go on with a digit, decimal or hexadecimal. -/
def EndsNumber (cs : List Char) : Prop := ∀ c ∈ cs.head?, isDigit 16 c = false

theorem endsNumber_nil : EndsNumber [] := fun _ hc => nomatch hc

theorem endsNumber_cons (h : isDigit 16 c = false) (cs : List Char) : EndsNumber (c :: cs) := by
  simpa [EndsNumber] using h

namespace EndsNumber

theorem not_isDigit (h : EndsNumber (c :: cs)) (hr : IsRadix radix) : ¬ isDigit radix c = true := fun hc => by
  simpa [h c rfl] using isDigit_mono hr.le_sixteen hc

theorem takeWhile_eq (h : EndsNumber rest) (hr : IsRadix radix) : rest.takeWhile (isDigit radix) = [] := by
  cases rest with
  | nil => rfl
  | cons c rest => exact List.takeWhile_cons_of_neg (h.not_isDigit hr)

theorem dropWhile_eq (h : EndsNumber rest) (hr : IsRadix radix) : rest.dropWhile (isDigit radix) = rest := by
  cases rest with
  | nil => rfl
  | cons c rest => exact List.dropWhile_cons_of_neg (h.not_isDigit hr)

end EndsNumber

variable {limit : Nat} {allowed : List Char → Bool}

theorem number_toDigits (h : IsRadix radix) (hallowed : allowed (Nat.toDigits radix n) = true) (hn : n < limit)
    (hrest : EndsNumber rest) : number radix limit allowed (Nat.toDigits radix n ++ rest) = some (n, rest) := by
  have hdigits := isDigit_of_mem_toDigits h n
  have htake : (Nat.toDigits radix n ++ rest).takeWhile (isDigit radix) = Nat.toDigits radix n := by
    rw [List.takeWhile_append_of_pos hdigits, hrest.takeWhile_eq h, List.append_nil]
  have hdrop : (Nat.toDigits radix n ++ rest).dropWhile (isDigit radix) = rest := by
    rw [List.dropWhile_append_of_pos hdigits, hrest.dropWhile_eq h]
  unfold number
  simp only [htake, hdrop, numberOf_toDigits h]
  exact if_pos ⟨Nat.toDigits_ne_nil, hallowed, hn⟩

theorem number_of_endsNumber (h : IsRadix radix) (hrest : EndsNumber rest) : number radix limit allowed rest = none := by
  unfold number
  simp only [hrest.takeWhile_eq h]
  exact if_neg fun hne => hne.1 rfl

/-! ## IPv4 -/

theorem octetForm_decimal (x : UInt8) : octetForm (decimal x.toNat) = true := by
  have hx := x.toNat_lt
  have hlen : (decimal x.toNat).length ≤ 3 := (Nat.length_toDigits_le_iff (by decide) (by decide)).2 (by omega)
  have hzero : (decimal x.toNat).length = 1 ∨ (decimal x.toNat).head? ≠ some '0' := by
    by_cases h : x.toNat = 0
    · rw [h]
      exact .inl rfl
    · exact .inr (head?_toDigits isRadix_ten (Nat.pos_of_ne_zero h))
  simpa [octetForm, hlen] using hzero

theorem octet_decimal (x : UInt8) (h : EndsNumber rest) : octet (decimal x.toNat ++ rest) = some (x, rest) := by
  have hnumber : number 10 256 octetForm (decimal x.toNat ++ rest) = some (x.toNat, rest) :=
    number_toDigits isRadix_ten (octetForm_decimal x) x.toNat_lt h
  rw [octet, bind_of_some hnumber, UInt8.ofNat_toNat]
  rfl

theorem rest_of_octet {x : UInt8} (h : octet cs = some (x, rest)) : rest = cs.dropWhile (isDigit 10) := by
  obtain ⟨⟨n, after⟩, hn, hafter⟩ := Option.bind_eq_some_iff.1 h
  cases hafter
  exact rest_of_number hn

theorem ipv4_chars (ip : Ipv4) (h : EndsNumber rest) : ipv4 (ip.chars ++ rest) = some (ip, rest) := by
  have hdot : ∀ cs, EndsNumber ('.' :: cs) := endsNumber_cons (by decide)
  simp only [Ipv4.chars, List.append_assoc, List.cons_append]
  rw [ipv4, bind_of_some (octet_decimal ip.a (hdot _)), bind_of_some (char_cons ..),
    bind_of_some (octet_decimal ip.b (hdot _)), bind_of_some (char_cons ..),
    bind_of_some (octet_decimal ip.c (hdot _)), bind_of_some (char_cons ..), bind_of_some (octet_decimal ip.d h)]
  rfl

/-- The text goes on neither with a digit nor with the dot after an octet. -/
structure EndsGroup (cs : List Char) : Prop where
  number : EndsNumber cs
  dot : cs.head? ≠ some '.'

theorem endsGroup_cons (h : isDigit 16 c = false) (hdot : c ≠ '.') (cs : List Char) : EndsGroup (c :: cs) :=
  ⟨endsNumber_cons h cs, by simpa using hdot⟩

/-- Hexadecimal digits with no dot after them are not the first octet of an address. -/
theorem ipv4_of_digits {ds : List Char} (hds : ∀ c ∈ ds, isDigit 16 c = true) (h : EndsGroup rest) :
    ipv4 (ds ++ rest) = none := by
  -- The decimal ones among the digits may be an octet; it is then a letter or `rest` that comes next.
  have hafter : ((ds ++ rest).dropWhile (isDigit 10)).head? ≠ some '.' := by
    rw [List.dropWhile_append, h.number.dropWhile_eq isRadix_ten]
    split
    · exact h.dot
    · rename_i hne
      rw [List.isEmpty_iff] at hne
      rw [List.head?_append_of_ne_nil _ hne]
      intro hhead
      exact absurd (hds '.' ((List.dropWhile_suffix _).subset (List.mem_of_mem_head? hhead))) (by decide)
  cases hoctet : octet (ds ++ rest) with
  | none => exact bind_of_none hoctet
  | some found =>
    obtain ⟨x, after⟩ := found
    obtain rfl := rest_of_octet hoctet
    rw [ipv4, bind_of_some hoctet, bind_of_none (char_eq_none hafter)]

theorem ipv4_of_endsGroup (h : EndsGroup rest) : ipv4 rest = none := by
  have hnil : ∀ c ∈ ([] : List Char), isDigit 16 c = true := fun _ hc => nomatch hc
  exact ipv4_of_digits hnil h

end AuditChain.Net
