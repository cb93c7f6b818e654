import AuditChain.Proofs.RoundTrip
/-!
# Compact sizes have one form

Bytes start with the shortest form of a number, or with a longer form of one, or they end before a form does.
`SizeAnswer` lists these cases with the answer of the reader to each. The form is judged before the size, so a
longer form is refused as such whatever number it is of.
-/

namespace AuditChain

variable {n : Nat} {b : UInt8} {payload : Bytes}

/-! ## Numbers of a fixed width -/

theorem readLE_of_short {w : Nat} (h : payload.length < w) : readLE w payload = .error .truncated := by
  have hfixed : readFixed w payload = .error .truncated := by
    unfold readFixed
    exact dif_neg (by rw [List.length_take]; omega)
  exact Reader.bind_of_error hfixed

/-- Bytes that are not too few start with the bytes of a number. -/
theorem exists_toLE {w : Nat} (h : w ≤ payload.length) : ∃ n rest, payload = toLE w n ++ rest ∧ n < 256 ^ w := by
  have hlen : (payload.take w).length = w := List.length_take_of_le h
  refine ⟨ofLE (payload.take w), payload.drop w, ?_, by simpa [h] using ofLE_lt (payload.take w)⟩
  have htake := toLE_ofLE (payload.take w)
  rw [hlen] at htake
  rw [htake, List.take_append_drop]

theorem readWide_of_lt {w least : Nat} (hn : n < 256 ^ w) (hlt : n < least) (rest : Bytes) :
    readWide w least (toLE w n ++ rest) = .error .nonCanonical := by
  unfold readWide
  rw [Reader.bind_of_ok (readLE_append hn rest), if_pos hlt]
  rfl

/-! ## Forms with a tag -/

/-- A form of a tag byte and the bytes of a number after it. -/
structure TaggedForm where
  tag : UInt8
  width : Nat
  /-- The least number that has no shorter form. -/
  least : Nat

namespace TaggedForm

/-- The three forms with a tag, the shortest first. -/
def all : List TaggedForm := [⟨0xfd, 2, 0xfd⟩, ⟨0xfe, 4, 0x10000⟩, ⟨0xff, 8, 0x100000000⟩]

/-- The number in this form. -/
def write (form : TaggedForm) (n : Nat) : Bytes := form.tag :: toLE form.width n

@[simp] theorem length_write (form : TaggedForm) (n : Nat) : (form.write n).length = form.width + 1 := by simp [write]

variable {form : TaggedForm}

theorem mem_all : form ∈ all ↔ form = ⟨0xfd, 2, 0xfd⟩ ∨ form = ⟨0xfe, 4, 0x10000⟩ ∨ form = ⟨0xff, 8, 0x100000000⟩ := by
  simp [all]

theorem bound_le (h : form ∈ all) : 256 ^ form.width ≤ 2 ^ 64 := by
  rcases mem_all.1 h with rfl | rfl | rfl <;> decide

/-- The writer takes a form with a tag for the numbers from the least one on. -/
theorem compactSize_eq_write (h : form ∈ all) (hlo : form.least ≤ n) (hhi : n < 256 ^ form.width) :
    compactSize n = form.write n := by
  unfold compactSize write
  rcases mem_all.1 h with rfl | rfl | rfl
  · simp [show ¬ n < 0xfd by simpa using hlo, show n < 0x10000 from hhi]
  · simp only at hlo
    simp [show ¬ n < 0xfd by omega, show ¬ n < 0x10000 by omega, show n < 0x100000000 from hhi]
  · simp only at hlo
    simp [show ¬ n < 0xfd by omega, show ¬ n < 0x10000 by omega, show ¬ n < 0x100000000 by omega]

/-- A form is longer than that of the writer for the numbers below its least one. -/
theorem length_compactSize_lt_iff (h : form ∈ all) (hn : n < 256 ^ form.width) :
    (compactSize n).length < (form.write n).length ↔ n < form.least := by
  constructor
  · intro hlt
    by_contra hlo
    rw [compactSize_eq_write h (by omega) hn] at hlt
    exact Nat.lt_irrefl _ hlt
  · intro hlt
    unfold compactSize
    rcases mem_all.1 h with rfl | rfl | rfl
    · simp only at hlt
      simp [hlt]
    · simp only at hlt
      split <;> simp
    · simp only at hlt
      split
      · simp
      split <;> simp

theorem readShortest_cons (b : UInt8) (rest : Bytes) :
    readShortest (b :: rest) = (if b.toNat = 0xfd then readWide 2 0xfd else if b.toNat = 0xfe then readWide 4 0x10000
      else if b.toNat = 0xff then readWide 8 0x100000000 else return b.toNat : Reader Nat) rest := by
  unfold readShortest
  rw [Reader.bind_of_ok (readLE_cons b rest)]

theorem readShortest_tag (h : form ∈ all) (payload : Bytes) :
    readShortest (form.tag :: payload) = readWide form.width form.least payload := by
  rw [readShortest_cons]
  rcases mem_all.1 h with rfl | rfl | rfl <;> rfl

/-- A byte that is no tag is a number by itself. -/
theorem eq_compactSize_of_not_tag (h : ∀ form ∈ all, b ≠ form.tag) : [b] = compactSize b.toNat := by
  have hne : b ≠ 0xfd ∧ b ≠ 0xfe ∧ b ≠ 0xff := by simpa [all] using h
  have hlt : b.toNat < 0xfd := by
    have := b.toNat_lt
    simp only [ne_eq, ← UInt8.toNat_inj, UInt8.reduceToNat] at hne
    omega
  simp [compactSize, hlt, toLE]

end TaggedForm

open TaggedForm

/-! ## The answers of the reader -/

/-- What the front of some bytes can be, with the answer of the reader. -/
inductive SizeAnswer : Bytes → Except ReadError (Nat × Bytes) → Prop
  | size {n rest} : n ≤ maxSize → SizeAnswer (compactSize n ++ rest) (.ok (n, rest))
  | oversized {n rest} : maxSize < n → n < 2 ^ 64 → SizeAnswer (compactSize n ++ rest) (.error (.oversized n))
  | longer {form n rest} : form ∈ TaggedForm.all → n < 256 ^ form.width →
      (compactSize n).length < (form.write n).length → SizeAnswer (form.write n ++ rest) (.error .nonCanonical)
  | empty : SizeAnswer [] (.error .truncated)
  | cut {form payload} : form ∈ TaggedForm.all → payload.length < form.width →
      SizeAnswer (form.tag :: payload) (.error .truncated)

theorem exists_answer_compactSize (h : n < 2 ^ 64) (rest : Bytes) :
    ∃ answer, SizeAnswer (compactSize n ++ rest) answer := by
  rcases Nat.lt_or_ge maxSize n with hn | hn
  · exact ⟨_, .oversized hn h⟩
  · exact ⟨_, .size hn⟩

/-- There is no other case. -/
theorem exists_answer (bs : Bytes) : ∃ answer, SizeAnswer bs answer := by
  rcases bs with _ | ⟨b, payload⟩
  · exact ⟨_, .empty⟩
  by_cases htag : ∃ form ∈ TaggedForm.all, b = form.tag
  · obtain ⟨form, hform, rfl⟩ := htag
    rcases Nat.lt_or_ge payload.length form.width with hcut | hfull
    · exact ⟨_, .cut hform hcut⟩
    obtain ⟨n, rest, rfl, hn⟩ := exists_toLE hfull
    by_cases hlt : (compactSize n).length < (form.write n).length
    · exact ⟨_, .longer hform hn hlt⟩
    · rw [length_compactSize_lt_iff hform hn, Nat.not_lt] at hlt
      have hanswer := exists_answer_compactSize (Nat.lt_of_lt_of_le hn (bound_le hform)) rest
      rwa [compactSize_eq_write hform hlt hn] at hanswer
  · push Not at htag
    have hanswer := exists_answer_compactSize (Nat.lt_trans b.toNat_lt (by decide)) payload
    rwa [← eq_compactSize_of_not_tag htag] at hanswer

theorem readCompactSize_of_error {bs : Bytes} {e : ReadError} (h : readShortest bs = .error e) :
    readCompactSize bs = .error e := Reader.bind_of_error h

theorem SizeAnswer.readCompactSize_eq {bs : Bytes} {answer : Except ReadError (Nat × Bytes)} (h : SizeAnswer bs answer) :
    readCompactSize bs = answer := by
  cases h with
  | @size n rest hn =>
    have hlt : n < 2 ^ 64 := Nat.lt_of_le_of_lt hn (by decide)
    rw [readsBack_readCompactSize n (by simpa using hlt) rest, limited_of_le (by simpa using hn)]
  | @oversized n rest hn hlt =>
    have hfirst : limited ([] ++ n :: []) (n, rest) = .error (.oversized n) := limited_of_first (by simp) hn (n, rest)
    rw [readsBack_readCompactSize n (by simpa using hlt) rest]
    exact hfirst
  | longer hform hn hlt =>
    apply readCompactSize_of_error
    rw [write, List.cons_append, readShortest_tag hform]
    exact readWide_of_lt hn ((length_compactSize_lt_iff hform hn).1 hlt) _
  | empty => rfl
  | cut hform hcut =>
    apply readCompactSize_of_error
    rw [readShortest_tag hform]
    exact Reader.bind_of_error (readLE_of_short hcut)

theorem sizeAnswer_iff {bs : Bytes} {answer : Except ReadError (Nat × Bytes)} :
    SizeAnswer bs answer ↔ readCompactSize bs = answer := by
  refine ⟨SizeAnswer.readCompactSize_eq, ?_⟩
  rintro rfl
  obtain ⟨answer, h⟩ := exists_answer bs
  rwa [h.readCompactSize_eq]

/-! ## Main theorem -/

/-- A size is read just from its shortest form, which is what the writer leaves, and just up to the limit. Above the
limit the shortest form is oversized, and the error names the size and the limit. A longer form of any number is not
canonical. Bytes are truncated just when there are none, or a tag without all of its number. -/
theorem readCompactSize_exact (bs : Bytes) :
    (∀ n rest, readCompactSize bs = .ok (n, rest) ↔ bs = compactSize n ++ rest ∧ n ≤ maxSize) ∧
    (∀ n, readCompactSize bs = .error (.oversized n) ↔
      maxSize < n ∧ n < 2 ^ 64 ∧ ∃ rest, bs = compactSize n ++ rest) ∧
    (∀ n, (ReadError.oversized n).message = s!"Length {n} exceeds maximum {maxSize}") ∧
    (readCompactSize bs = .error .nonCanonical ↔ ∃ form ∈ TaggedForm.all, ∃ n rest, n < 256 ^ form.width ∧
      (compactSize n).length < (form.write n).length ∧ bs = form.write n ++ rest) ∧
    (readCompactSize bs = .error .truncated ↔
      bs = [] ∨ ∃ form ∈ TaggedForm.all, ∃ payload, payload.length < form.width ∧ bs = form.tag :: payload) := by
  simp only [← sizeAnswer_iff]
  refine ⟨fun n rest => ⟨?_, ?_⟩, fun n => ⟨?_, ?_⟩, fun _ => rfl, ⟨?_, ?_⟩, ⟨?_, ?_⟩⟩
  · rintro ⟨hn⟩
    exact ⟨rfl, hn⟩
  · rintro ⟨rfl, hn⟩
    exact .size hn
  · intro h
    cases h with
    | @oversized n rest hn hlt => exact ⟨hn, hlt, rest, rfl⟩
  · rintro ⟨hn, hlt, rest, rfl⟩
    exact .oversized hn hlt
  · intro h
    cases h with
    | @longer form n rest hform hn hlt => exact ⟨form, hform, n, rest, hn, hlt, rfl⟩
  · rintro ⟨form, hform, n, rest, hn, hlt, rfl⟩
    exact .longer hform hn hlt
  · intro h
    cases h with
    | empty => exact .inl rfl
    | @cut form payload hform hcut => exact .inr ⟨form, hform, payload, hcut, rfl⟩
  · rintro (rfl | ⟨form, hform, payload, hcut, rfl⟩)
    · exact .empty
    · exact .cut hform hcut

/-- Three million has a form with four bytes, and with eight it is refused for the form and not for its size. -/
example : readCompactSize (compactSize 3000000) = .error (.oversized 3000000) ∧
    readCompactSize (TaggedForm.write ⟨0xff, 8, 0x100000000⟩ 3000000) = .error .nonCanonical := by decide

end AuditChain
