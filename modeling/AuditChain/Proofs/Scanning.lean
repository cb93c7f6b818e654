import AuditChain.Scanner
/-!
# What scanners read and take

What scanners in sequence do with a text whose front the first of them reads or fails on. Then the characters that a
scanner takes: they lie between the text and what it leaves, and each way to put scanners together adds them up.
-/

namespace AuditChain.Scanner

variable {α β : Type}

/-! ## One after another -/

section Sequence

variable {scan : Scanner α} {cs rest : List Char} {x : α}

theorem bind_of_some {f : α → Scanner β} (h : scan cs = some (x, rest)) : (scan >>= f) cs = f x rest := by
  simp [bind, StateT.bind, h]

theorem bind_of_none {f : α → Scanner β} (h : scan cs = none) : (scan >>= f) cs = none := by
  simp [bind, StateT.bind, h]

theorem map_of_some {f : α → β} (h : scan cs = some (x, rest)) : (f <$> scan) cs = some (f x, rest) := by
  simp [Functor.map, StateT.map, h]

theorem map_of_none {f : α → β} (h : scan cs = none) : (f <$> scan) cs = none := by
  simp [Functor.map, StateT.map, h]

theorem orElse_eq (scan other : Scanner α) (cs : List Char) : (scan <|> other) cs = (scan cs).or (other cs) :=
  Option.orElse_eq_or ..

theorem char_cons (c : Char) (cs : List Char) : char c (c :: cs) = some ((), cs) := by simp [char, satisfying]

theorem char_eq_none {c : Char} (h : cs.head? ≠ some c) : char c cs = none := by
  cases cs with
  | nil => rfl
  | cons d cs =>
    have hd : d ≠ c := fun hd => h (congrArg some hd)
    simp [char, satisfying, hd]

theorem whole?_eq_some_iff : scan.whole? cs = some x ↔ scan cs = some (x, []) := by
  unfold whole?
  split
  · rename_i y h
    simp [h]
  · rename_i h
    simpa using h x

end Sequence

/-! ## The characters that are taken -/

variable {p : Char → Prop}

/-- From `cs` to its end `rest` there are only characters that satisfy `p`. -/
def Passes (p : Char → Prop) (cs rest : List Char) : Prop := ∃ taken, cs = taken ++ rest ∧ ∀ c ∈ taken, p c

theorem passes_refl (cs : List Char) : Passes p cs cs := ⟨[], rfl, fun _ hc => nomatch hc⟩

theorem passes_cons {c : Char} (h : p c) (cs : List Char) : Passes p (c :: cs) cs := ⟨[c], rfl, by simpa using h⟩

theorem Passes.trans {cs rest more : List Char} (h : Passes p cs rest) (h' : Passes p rest more) : Passes p cs more := by
  obtain ⟨taken, rfl, htaken⟩ := h
  obtain ⟨taken', rfl, htaken'⟩ := h'
  refine ⟨taken ++ taken', (List.append_assoc ..).symm, fun c hc => ?_⟩
  exact (List.mem_append.1 hc).elim (htaken c) (htaken' c)

/-- The scanner takes characters that satisfy `p`, and leaves what follows them. -/
def Takes (p : Char → Prop) (scan : Scanner α) : Prop :=
  ∀ cs x rest, scan cs = some (x, rest) → Passes p cs rest

theorem takes_pure (x : α) : Takes p (pure x : Scanner α) := by
  intro cs y rest h
  cases h
  exact passes_refl cs

theorem takes_bind {scan : Scanner α} {f : α → Scanner β} (h : Takes p scan) (hf : ∀ x, Takes p (f x)) :
    Takes p (scan >>= f) := by
  intro cs y rest hrun
  obtain ⟨⟨x, after⟩, hx, hy⟩ := Option.bind_eq_some_iff.1 hrun
  exact (h _ _ _ hx).trans (hf x _ _ _ hy)

theorem takes_orElse {scan other : Scanner α} (h : Takes p scan) (h' : Takes p other) : Takes p (scan <|> other) := by
  intro cs x rest hrun
  rw [orElse_eq, Option.or_eq_some_iff] at hrun
  rcases hrun with hrun | ⟨-, hrun⟩
  · exact h _ _ _ hrun
  · exact h' _ _ _ hrun

theorem takes_char {c : Char} (h : p c) : Takes p (char c) := by
  intro cs x rest hrun
  by_cases hhead : cs.head? = some c
  · obtain ⟨cs, rfl⟩ := List.head?_eq_some_iff.1 hhead
    rw [char_cons] at hrun
    cases hrun
    exact passes_cons h _
  · rw [char_eq_none hhead] at hrun
    cases hrun

theorem of_whole? {scan : Scanner α} (h : Takes p scan) {cs : List Char} {x : α} (hx : scan.whole? cs = some x) :
    ∀ c ∈ cs, p c := by
  obtain ⟨taken, rfl, htaken⟩ := h _ _ _ (whole?_eq_some_iff.1 hx)
  simpa using htaken

end AuditChain.Scanner
