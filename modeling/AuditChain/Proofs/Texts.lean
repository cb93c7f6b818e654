import AuditChain.Text
/-!
# Texts that are put together and taken apart

Words with a blank between them are the words of the text, and lines with a line feed after them its lines.
The digits of a number are read as the number.
-/

namespace AuditChain.Text

/-- No blank is in the text. -/
def Unbroken (cs : List Char) : Prop := ∀ c ∈ cs, isBlank c = false

/-- The text is one word. -/
def IsWord (w : List Char) : Prop := w ≠ [] ∧ Unbroken w

variable {c : Char} {cs w rest : List Char}

theorem unbroken_nil : Unbroken [] := fun _ hc => nomatch hc

theorem unbroken_cons : Unbroken (c :: cs) ↔ isBlank c = false ∧ Unbroken cs := List.forall_mem_cons

/-! ## Words -/

theorem words_of_blank (h : isBlank c = true) : words (c :: cs) = words cs := by
  rw [words.eq_def]
  exact if_pos h

/-- A character that is no blank starts a word. -/
theorem words_of_char (h : isBlank c = false) :
    words (c :: cs) = if (cs.head?.any fun d => !isBlank d) then consFirst c (words cs) else [c] :: words cs := by
  cases cs with
  | nil => simp [words, h]
  | cons d cs =>
    rw [words.eq_def]
    cases hd : isBlank d <;> simp [h, hd]

/-- A word that nothing continues is the first of the words. -/
theorem words_append (hw : IsWord w) (h : ∀ c ∈ rest.head?, isBlank c = true) : words (w ++ rest) = w :: words rest := by
  obtain ⟨hne, hw⟩ := hw
  induction w with
  | nil => exact absurd rfl hne
  | cons d w ih =>
    obtain ⟨hd, hw⟩ := unbroken_cons.1 hw
    rw [List.cons_append, words_of_char hd]
    cases w with
    | nil =>
      have hend : (rest.head?.any fun c => !isBlank c) = false := by
        rw [Option.any_eq_false]
        intro c hc
        simp [h c hc]
      simp [hend]
    | cons e w =>
      have he := (unbroken_cons.1 hw).1
      rw [ih (List.cons_ne_nil e w) hw]
      simp [he, consFirst]

theorem words_append_blank (hw : IsWord w) (h : isBlank c = true) : words (w ++ c :: rest) = w :: words rest := by
  rw [words_append hw (by simpa using h), words_of_blank h]

theorem words_of_isWord (hw : IsWord w) : words w = [w] := by
  have hend : ∀ c ∈ ([] : List Char).head?, isBlank c = true := fun _ hc => nomatch hc
  simpa [words] using words_append hw hend

theorem isWord_of_mem_words (h : w ∈ words cs) : IsWord w := by
  induction cs generalizing w with
  | nil => cases h
  | cons c cs ih =>
    cases hc : isBlank c with
    | true => exact ih (words_of_blank hc ▸ h)
    | false =>
      rw [words_of_char hc] at h
      have single : IsWord [c] := ⟨by simp, unbroken_cons.2 ⟨hc, unbroken_nil⟩⟩
      split at h
      · cases hws : words cs with
        | nil =>
          rw [hws, consFirst, List.mem_singleton] at h
          exact h ▸ single
        | cons v vs =>
          rw [hws] at h ih
          rcases List.mem_cons.1 h with rfl | h
          · exact ⟨by simp, unbroken_cons.2 ⟨hc, (ih List.mem_cons_self).2⟩⟩
          · exact ih (List.mem_cons_of_mem v h)
      · rcases List.mem_cons.1 h with rfl | h
        · exact single
        · exact ih h

/-- The first word starts where the text does, unless that is a blank. -/
theorem head?_words (h : isBlank c = false) : ∃ v vs, words (c :: cs) = (c :: v) :: vs := by
  rw [words_of_char h]
  split
  · cases words cs with
    | nil => exact ⟨[], [], rfl⟩
    | cons v vs => exact ⟨v, vs, rfl⟩
  · exact ⟨[], words cs, rfl⟩

/-! ## Trimming -/

theorem trimStart_eq_self (h : ∀ c ∈ cs.head?, isBlank c = false) : trimStart cs = cs := by
  cases cs with
  | nil => rfl
  | cons c cs => exact List.dropWhile_cons_of_neg (by simp [h c rfl])

theorem trim_eq_self (hhead : ∀ c ∈ cs.head?, isBlank c = false) (hlast : ∀ c ∈ cs.getLast?, isBlank c = false) :
    trim cs = cs := by
  rw [trim, trimStart_eq_self hhead, trimStart_eq_self (by rwa [List.head?_reverse]), List.reverse_reverse]

/-- A trimmed text does not start with a blank. -/
theorem head?_trim (h : c ∈ (trim cs).head?) : isBlank c = false := by
  have hprefix : trim cs <+: trimStart cs := by
    have hsuffix := List.dropWhile_suffix isBlank (l := (trimStart cs).reverse)
    rw [← List.reverse_prefix, List.reverse_reverse] at hsuffix
    exact hsuffix
  have hc : c ∈ (trimStart cs).head? := by
    obtain ⟨tail, hcs⟩ := List.head?_eq_some_iff.1 h
    obtain ⟨more, happ⟩ := hprefix
    rw [← happ, hcs]
    rfl
  have hnot := List.head?_dropWhile_not isBlank cs
  rw [show (cs.dropWhile isBlank).head? = some c from hc] at hnot
  exact hnot

/-! ## Lines -/

theorem consFirst_append {pieces : List (List Char)} (h : pieces ≠ []) (more : List (List Char)) :
    consFirst c (pieces ++ more) = consFirst c pieces ++ more := by
  cases pieces with
  | nil => exact absurd rfl h
  | cons piece pieces => rfl

theorem lines_ne_nil (h : cs ≠ []) : lines cs ≠ [] := by
  fun_cases lines cs with
  | case1 => exact absurd rfl h
  | case2 | case3 => exact List.cons_ne_nil _ _
  | case4 c cs => cases lines cs <;> exact List.cons_ne_nil _ _

/-- A character that does not end a line belongs to the first one. -/
theorem lines_cons (hn : c ≠ '\n') (hr : c = '\r' → cs.head? ≠ some '\n') : lines (c :: cs) = consFirst c (lines cs) := by
  rw [lines]
  · exact hn
  · rintro tail rfl rfl
    exact hr rfl rfl

/-- A line feed ends a line, whatever follows. -/
theorem lines_append (cs rest : List Char) : lines (cs ++ '\n' :: rest) = lines (cs ++ ['\n']) ++ lines rest := by
  fun_induction lines cs with
  | case1 => rfl
  | case2 cs ih => simp [lines, ih]
  | case3 cs ih => simp [lines, ih]
  | case4 c cs hn hr ih =>
    cases cs with
    | nil =>
      by_cases hc : c = '\r'
      · subst hc
        rfl
      · have hcons : ∀ more, lines (c :: '\n' :: more) = [c] :: lines more := fun more =>
          lines_cons hn fun h => absurd h hc
        show lines (c :: '\n' :: rest) = lines (c :: '\n' :: []) ++ lines rest
        rw [hcons, hcons]
        rfl
    | cons d cs =>
      have hcons : ∀ more, lines (c :: (d :: cs ++ more)) = consFirst c (lines (d :: cs ++ more)) := fun more =>
        lines_cons hn fun h hd => hr cs h (congrArg (· :: cs) (Option.some.inj hd))
      show lines (c :: (d :: cs ++ '\n' :: rest)) = lines (c :: (d :: cs ++ ['\n'])) ++ lines rest
      rw [hcons, hcons, ih]
      exact consFirst_append (lines_ne_nil (by simp)) (lines rest)

/-- Characters that do not end a line belong to the first one. -/
theorem lines_front {line tail first : List Char} {more : List (List Char)} (hline : '\n' ∉ line)
    (htail : lines tail = first :: more) (hend : line.getLast? = some '\r' → tail.head? ≠ some '\n') :
    lines (line ++ tail) = (line ++ first) :: more := by
  induction line with
  | nil => exact htail
  | cons c line ih =>
    obtain ⟨hn, hline⟩ := not_or.1 (mt List.mem_cons.2 hline)
    cases line with
    | nil => rw [List.singleton_append, lines_cons (Ne.symm hn) fun hc => hend (congrArg some hc), htail]; rfl
    | cons d line =>
      have hd : d ≠ '\n' := fun hd => hline (hd ▸ List.mem_cons_self)
      rw [List.cons_append, lines_cons (Ne.symm hn) (fun _ hhead => hd (by simpa using hhead)),
        ih hline (by simpa [List.getLast?_cons_cons] using hend)]
      rfl

theorem lines_of_line {line : List Char} (h : ∀ c ∈ line, c ≠ '\n' ∧ c ≠ '\r') : lines (line ++ ['\n']) = [line] := by
  have hlast : line.getLast? = some '\r' → ['\n'].head? ≠ some '\n' := fun hr =>
    absurd rfl (h '\r' (List.mem_of_getLast? hr)).2
  have hfront : lines (line ++ ['\n']) = [line ++ []] := lines_front (fun hn => (h _ hn).1 rfl) rfl hlast
  rwa [List.append_nil] at hfront

/-! ## Digits -/

theorem digit?_of_isDigit (h : c.isDigit = true) : digit? c = some (c.toNat - '0'.toNat) := by
  simp only [Char.isDigit, Bool.and_eq_true, decide_eq_true_eq] at h
  exact if_pos h

theorem ofDigits?_of_isDigit (acc : Nat) (h : ∀ c ∈ cs, c.isDigit = true) :
    ofDigits? acc cs = some (Nat.ofDigitChars 10 cs acc) := by
  induction cs generalizing acc with
  | nil => rfl
  | cons c cs ih =>
    obtain ⟨hc, hcs⟩ := List.forall_mem_cons.1 h
    rw [ofDigits?, digit?_of_isDigit hc, Option.bind_some, ih _ hcs, Nat.ofDigitChars_cons, Nat.mul_comm]

theorem isDigit_of_mem_toDigits {n : Nat} (h : c ∈ toDigits n) : c.isDigit = true :=
  Nat.isDigit_of_mem_toDigits (by decide) (by decide) h

theorem isBlank_of_isDigit (h : c.isDigit = true) : isBlank c = false := by
  simp only [Char.isDigit, Bool.and_eq_true, decide_eq_true_eq, UInt32.le_iff_toNat_le] at h
  have hlow : 48 ≤ c.toNat := h.1
  have hhigh : c.toNat ≤ 57 := h.2
  simp only [isBlank, Bool.or_eq_false_iff, Bool.and_eq_false_iff, decide_eq_false_iff_not, beq_eq_false_iff_ne]
  omega

theorem isWord_toDigits (n : Nat) : IsWord (toDigits n) :=
  ⟨Nat.toDigits_ne_nil, fun _ hc => isBlank_of_isDigit (isDigit_of_mem_toDigits hc)⟩

/-- Without a sign there are the digits only. -/
theorem readUInt32?_of_isDigit (hne : cs ≠ []) (h : ∀ c ∈ cs, c.isDigit = true) {n : UInt32}
    (hn : ofDigits? 0 cs = some n.toNat) : readUInt32? cs = some n := by
  unfold readUInt32?
  split
  · exact absurd (h '+' List.mem_cons_self) (by decide)
  · simp [hne, hn, n.toNat_lt]

theorem readUInt32?_toDigits (n : UInt32) : readUInt32? (toDigits n.toNat) = some n := by
  have hdigit : ∀ c ∈ toDigits n.toNat, c.isDigit = true := fun _ hc => isDigit_of_mem_toDigits hc
  refine readUInt32?_of_isDigit (isWord_toDigits n.toNat).1 hdigit ?_
  rw [ofDigits?_of_isDigit 0 hdigit]
  exact congrArg some Nat.ofDigitChars_ten_toDigits

end AuditChain.Text
