import Mathlib.Data.List.Basic
import AuditChain.Proofs.Texts
/-!
# What a text consists of

The words, the lines and the numbers of a text, said of the text itself and not of how it is read: words are the
pieces between blanks, a line ends where its end stands, and a number is what its digits are worth.
-/

namespace AuditChain.Text

variable {c : Char} {cs front back line text rest : List Char} {ls : List (List Char)}

/-! ## Blanks around a text -/

/-- Nothing but blanks. -/
def Blank (cs : List Char) : Prop := ∀ c ∈ cs, isBlank c = true

theorem blank_append : Blank (front ++ back) ↔ Blank front ∧ Blank back := List.forall_mem_append

theorem blank_takeWhile (cs : List Char) : Blank (cs.takeWhile isBlank) := fun _ hc =>
  List.all_eq_true.1 List.all_takeWhile _ hc

/-- Trimming takes off blanks, at both ends. -/
theorem exists_trim (cs : List Char) : ∃ front back, cs = front ++ trim cs ++ back ∧ Blank front ∧ Blank back := by
  have hstart : ∀ cs, cs.takeWhile isBlank ++ trimStart cs = cs := fun cs => List.takeWhile_append_dropWhile
  refine ⟨cs.takeWhile isBlank, ((trimStart cs).reverse.takeWhile isBlank).reverse, ?_, blank_takeWhile cs, ?_⟩
  · rw [trim, List.append_assoc, ← List.reverse_append, hstart, List.reverse_reverse, hstart]
  · intro c hc
    exact blank_takeWhile _ c (List.mem_reverse.1 hc)

theorem trimStart_append (h : Blank front) (hc : isBlank c = false) : trimStart (front ++ c :: rest) = c :: rest := by
  rw [trimStart, List.dropWhile_append_of_pos h]
  exact List.dropWhile_cons_of_neg (by simp [hc])

/-- Nothing but blanks, or a hash sign after blanks at most. -/
inductive Ignored : List Char → Prop
  | blank {line : List Char} : Blank line → Ignored line
  | comment {front rest : List Char} : Blank front → Ignored (front ++ '#' :: rest)

theorem ignored_iff : Ignored line ↔ trim line = [] ∨ (trim line).head? = some '#' := by
  obtain ⟨front, back, hline, hfront, hback⟩ := exists_trim line
  constructor
  · intro h
    cases htrim : trim line with
    | nil => exact .inl rfl
    | cons d tail =>
      have hhead : d ∈ (trim line).head? := by rw [htrim]; rfl
      have hd := head?_trim hhead
      rw [htrim, List.append_assoc, List.cons_append] at hline
      cases h with
      | blank h =>
        rw [hline, blank_append] at h
        exact absurd (h.2 d List.mem_cons_self) (by simp [hd])
      | @comment blanks rest h =>
        -- Both are the text without the blanks at its start.
        have hstart := congrArg trimStart hline
        rw [trimStart_append h (by decide), trimStart_append hfront hd] at hstart
        exact .inr (congrArg some (List.cons.inj hstart).1.symm)
  · rintro (hnil | hhead)
    · rw [hnil, List.append_nil] at hline
      rw [hline]
      exact .blank (blank_append.2 ⟨hfront, hback⟩)
    · obtain ⟨tail, htail⟩ := List.head?_eq_some_iff.1 hhead
      rw [htail, List.append_assoc, List.cons_append] at hline
      rw [hline]
      exact .comment hfront

instance : DecidablePred Ignored := fun _ => decidable_of_iff _ ignored_iff.symm

/-! ## Words -/

/-- What stands between the blanks of a text. -/
def pieces (cs : List Char) : List (List Char) := (cs.splitOnP isBlank).filter (· ≠ [])

theorem words_eq_pieces (cs : List Char) : words cs = pieces cs := by
  unfold pieces
  -- Whether a character starts a word or goes on with one depends on the character after it.
  induction cs with
  | nil => rfl
  | cons c cs ih =>
    rw [List.splitOnP_cons_eq_if_modifyHead]
    cases hc : isBlank c with
    | true => simp [words_of_blank hc, ih]
    | false =>
      rw [words_of_char hc, ih]
      cases cs with
      | nil => rfl
      | cons d cs =>
        rw [List.splitOnP_cons_eq_if_modifyHead]
        cases hd : isBlank d with
        | true => simp [hd]
        | false =>
          obtain ⟨piece, more, hmore⟩ := List.exists_cons_of_ne_nil (List.splitOnP_ne_nil isBlank cs)
          simp [hd, hmore, consFirst]

theorem words_append_of_blank (h : isBlank c = true) (front back : List Char) :
    words (front ++ c :: back) = words front ++ words back := by
  simp only [words_eq_pieces, pieces, List.splitOnP_append_cons front back h, List.filter_append]

theorem words_of_blanks (h : Blank cs) : words cs = [] := by
  induction cs with
  | nil => rfl
  | cons c cs ih =>
    obtain ⟨hc, hcs⟩ := List.forall_mem_cons.1 h
    rw [words_of_blank hc, ih hcs]

/-- Blanks around a text are in none of its words. -/
theorem words_trim (cs : List Char) : words (trim cs) = words cs := by
  have hfront : ∀ {front}, Blank front → ∀ cs, words (front ++ cs) = words cs := by
    intro front h cs
    induction front with
    | nil => rfl
    | cons c front ih =>
      obtain ⟨hc, hfront⟩ := List.forall_mem_cons.1 h
      rw [List.cons_append, words_of_blank hc, ih hfront]
  have hback : ∀ {back}, Blank back → ∀ cs, words (cs ++ back) = words cs := by
    intro back h cs
    cases back with
    | nil => rw [List.append_nil]
    | cons c back =>
      obtain ⟨hc, hback⟩ := List.forall_mem_cons.1 h
      rw [words_append_of_blank hc, words_of_blanks hback, List.append_nil]
  obtain ⟨front, back, hcs, hf, hb⟩ := exists_trim cs
  conv_rhs => rw [hcs, hback hb, hfront hf]

/-! ## Lines -/

/-- The text consists of the lines, each with its end: a line feed, or a carriage return and a line feed. At the last
line the end may be missing. -/
inductive IsLines : List Char → List (List Char) → Prop
  | nil : IsLines [] []
  | last {line : List Char} : line ≠ [] → '\n' ∉ line → IsLines line [line]
  | lineFeed {line text : List Char} {ls : List (List Char)} : '\n' ∉ line → line.getLast? ≠ some '\r' →
      IsLines text ls → IsLines (line ++ '\n' :: text) (line :: ls)
  | carriageReturn {line text : List Char} {ls : List (List Char)} : '\n' ∉ line →
      IsLines text ls → IsLines (line ++ '\r' :: '\n' :: text) (line :: ls)

/-- A character in front of the first line of a text. -/
theorem IsLines.cons (h : IsLines cs ls) (hn : c ≠ '\n') (hr : c = '\r' → cs.head? ≠ some '\n') :
    IsLines (c :: cs) (consFirst c ls) := by
  cases h with
  | nil => exact .last (by simp) (by simpa using Ne.symm hn)
  | last hne hline => exact .last (by simp) (by simp [Ne.symm hn, hline])
  | @lineFeed line text ls hline hlast h =>
    have hlast' : (c :: line).getLast? ≠ some '\r' := by
      cases line with
      | nil => exact fun hc => hr (Option.some.inj hc) rfl
      | cons d line => simpa [List.getLast?_cons_cons] using hlast
    show IsLines ((c :: line) ++ '\n' :: text) _
    exact .lineFeed (by simp [Ne.symm hn, hline]) hlast' h
  | @carriageReturn line text ls hline h =>
    show IsLines ((c :: line) ++ '\r' :: '\n' :: text) _
    exact .carriageReturn (by simp [Ne.symm hn, hline]) h

theorem isLines_lines (cs : List Char) : IsLines cs (lines cs) := by
  fun_induction lines cs with
  | case1 => exact .nil
  | case2 cs ih =>
    show IsLines ([] ++ '\n' :: cs) _
    exact .lineFeed (by simp) (by simp) ih
  | case3 cs ih =>
    show IsLines ([] ++ '\r' :: '\n' :: cs) _
    exact .carriageReturn (by simp) ih
  | case4 c cs hn hr ih =>
    refine ih.cons hn fun hc hhead => ?_
    obtain ⟨tail, htail⟩ := List.head?_eq_some_iff.1 hhead
    exact hr tail hc htail

/-- A text has its lines in one way only. -/
theorem IsLines.lines_eq (h : IsLines cs ls) : lines cs = ls := by
  induction h with
  | nil => rfl
  | @last line hne hline =>
    obtain ⟨front, c, rfl⟩ : ∃ front c, line = front ++ [c] := ⟨_, _, (List.dropLast_append_getLast hne).symm⟩
    obtain ⟨hfront, hc⟩ : '\n' ∉ front ∧ '\n' ≠ c := by simpa [not_or] using hline
    have hone : lines [c] = [[c]] := lines_cons (Ne.symm hc) fun _ => by simp
    exact lines_front hfront hone fun _ hhead => hc (Option.some.inj hhead).symm
  | @lineFeed line text ls hline hlast _ ih =>
    have hfront : lines (line ++ '\n' :: text) = (line ++ []) :: ls :=
      lines_front hline (by rw [lines, ih]) fun hr => absurd hr hlast
    rwa [List.append_nil] at hfront
  | @carriageReturn line text ls hline _ ih =>
    have hfront : lines (line ++ '\r' :: '\n' :: text) = (line ++ []) :: ls :=
      lines_front hline (by rw [lines, ih]) fun _ => by simp
    rwa [List.append_nil] at hfront

/-! ## Numbers -/

/-- The number below `2 ^ 32` that a text is: decimal digits, with or without a plus sign. -/
def IsUInt32 (cs : List Char) (n : UInt32) : Prop :=
  ∃ digits, (cs = digits ∨ cs = '+' :: digits) ∧ digits ≠ [] ∧ (∀ c ∈ digits, c.isDigit = true) ∧
    Nat.ofDigitChars 10 digits 0 = n.toNat

theorem isDigit_of_digit? {d : Nat} (h : digit? c = some d) : c.isDigit = true := by
  unfold digit? at h
  split at h
  · rename_i hc
    simp only [Char.isDigit, Bool.and_eq_true, decide_eq_true_eq]
    exact hc
  · cases h

theorem isDigit_of_ofDigits? {acc m : Nat} (h : ofDigits? acc cs = some m) : ∀ c ∈ cs, c.isDigit = true := by
  induction cs generalizing acc with
  | nil => exact fun _ hc => nomatch hc
  | cons c cs ih =>
    obtain ⟨d, hd, hrest⟩ := Option.bind_eq_some_iff.1 h
    exact List.forall_mem_cons.2 ⟨isDigit_of_digit? hd, ih hrest⟩

theorem ofDigits?_eq_some_iff {acc m : Nat} :
    ofDigits? acc cs = some m ↔ (∀ c ∈ cs, c.isDigit = true) ∧ Nat.ofDigitChars 10 cs acc = m := by
  constructor
  · intro h
    have hdigits := isDigit_of_ofDigits? h
    rw [ofDigits?_of_isDigit acc hdigits] at h
    exact ⟨hdigits, Option.some.inj h⟩
  · rintro ⟨hdigits, rfl⟩
    exact ofDigits?_of_isDigit acc hdigits

/-- A number that is too large is none. -/
theorem bounded_eq_some_iff {m : Nat} {n : UInt32} :
    (if m < UInt32.size then some (UInt32.ofNat m) else none) = some n ↔ m = n.toNat := by
  constructor
  · intro h
    split at h
    · rename_i hm
      rw [← Option.some.inj h]
      exact (UInt32.toNat_ofNat_of_lt' hm).symm
    · cases h
  · rintro rfl
    rw [if_pos n.toNat_lt, UInt32.ofNat_toNat]

theorem readUInt32?_eq_some_iff {n : UInt32} : readUInt32? cs = some n ↔ IsUInt32 cs n := by
  have hdigits : ∀ digits, (if digits.isEmpty then none else (ofDigits? 0 digits).bind fun m =>
      if m < UInt32.size then some (UInt32.ofNat m) else none) = some n ↔
        digits ≠ [] ∧ (∀ c ∈ digits, c.isDigit = true) ∧ Nat.ofDigitChars 10 digits 0 = n.toNat := by
    intro digits
    by_cases hnil : digits = []
    · simp [hnil]
    · simp only [List.isEmpty_iff, hnil, if_false, Option.bind_eq_some_iff, ofDigits?_eq_some_iff, bounded_eq_some_iff]
      simp [hnil]
  unfold readUInt32? IsUInt32
  dsimp only
  split
  · rename_i rest
    rw [hdigits]
    constructor
    · exact fun h => ⟨rest, .inr rfl, h⟩
    · rintro ⟨digits, rfl | heq, hne, hall, hvalue⟩
      · exact absurd (hall '+' List.mem_cons_self) (by decide)
      · obtain rfl := (List.cons.inj heq).2
        exact ⟨hne, hall, hvalue⟩
  · rename_i hsign
    rw [hdigits]
    constructor
    · exact fun h => ⟨cs, .inl rfl, h⟩
    · rintro ⟨digits, rfl | heq, h⟩
      · exact h
      · exact absurd heq (hsign digits)

end AuditChain.Text
