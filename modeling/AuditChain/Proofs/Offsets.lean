import AuditChain.Proofs.Scripts
/-!
# Scripts read by their offsets

The readers of scripts take lists apart. In a buffer the same parts are found by their offsets: a template by
its length and by what stands at fixed places, and a key by adding up length bytes that whoever wrote the
script has chosen. Here every read says how far it reaches, and `none` means that it reaches beyond the
buffer. That never happens, whatever the bytes, and what is found by offsets is what the lists say.
-/

namespace AuditChain.Script

/-! ## Slices -/

/-- The bytes from `start` up to `stop`, if there are that many. -/
def slice? (bs : Bytes) (start stop : Nat) : Option Bytes :=
  if start ≤ stop ∧ stop ≤ bs.length then some ((bs.take stop).drop start) else none

theorem isSome_slice? {bs : Bytes} {start stop : Nat} (h : start ≤ stop) (h' : stop ≤ bs.length) :
    (slice? bs start stop).isSome = true := by
  rw [slice?, if_pos ⟨h, h'⟩]
  rfl

/-- A slice is what stands in front of the bytes after it. -/
theorem slice?_eq_some_iff {bs x : Bytes} {start stop : Nat} :
    slice? bs start stop = some x ↔ start + x.length = stop ∧ stop ≤ bs.length ∧ bs.drop start = x ++ bs.drop stop := by
  unfold slice?
  constructor
  · intro h
    split at h
    · rename_i hle
      obtain rfl := Option.some.inj h
      refine ⟨?_, hle.2, ?_⟩
      · rw [List.length_drop, List.length_take]
        omega
      · rw [List.drop_take]
        nth_rewrite 1 [← List.take_append_drop (stop - start) (bs.drop start)]
        rw [List.drop_drop, Nat.add_sub_cancel' hle.1]
    · cases h
  · rintro ⟨rfl, hlen, hx⟩
    rw [if_pos ⟨Nat.le_add_right _ _, hlen⟩, List.drop_take, hx, Nat.add_sub_cancel_left, List.take_left]

/-- A slice has as many bytes as lie between its ends. -/
theorem exists_of_slice? {bs part : Bytes} {start n : Nat} (h : slice? bs start (start + n) = some part) :
    ∃ x : FixedBytes n, x.toList = part :=
  ⟨⟨part, Nat.add_left_cancel (slice?_eq_some_iff.1 h).1⟩, rfl⟩

/-- The parts stand one after the other from `start` to the end of the bytes. -/
def Tiles (bs : Bytes) : (start : Nat) → (parts : List Bytes) → Prop
  | start, [] => start = bs.length
  | start, part :: parts =>
    slice? bs start (start + part.length) = some part ∧ Tiles bs (start + part.length) parts

/-- Bytes are put together from the parts that tile them. -/
theorem tiles_iff {bs : Bytes} {start : Nat} {parts : List Bytes} (h : start ≤ bs.length) :
    Tiles bs start parts ↔ bs.drop start = parts.flatten := by
  induction parts generalizing start with
  | nil =>
    rw [Tiles, List.flatten_nil, List.drop_eq_nil_iff]
    omega
  | cons part parts ih =>
    rw [Tiles, slice?_eq_some_iff, List.flatten_cons]
    constructor
    · rintro ⟨⟨-, hlen, hpart⟩, htail⟩
      rw [hpart, (ih hlen).1 htail]
    · intro hdrop
      have hlen : start + part.length ≤ bs.length := by
        have := congrArg List.length hdrop
        rw [List.length_drop, List.length_append] at this
        omega
      have htail : bs.drop (start + part.length) = parts.flatten := by
        rw [← List.drop_drop, hdrop, List.drop_left]
      exact ⟨⟨rfl, hlen, by rw [hdrop, htail]⟩, (ih hlen).2 htail⟩

/-- A script is told by its parts, each at its offset. -/
theorem eq_mk_iff_tiles {s : Script} {parts : List Bytes} (h : s.bytes = parts.flatten) {bs : Bytes} :
    s = ⟨bs⟩ ↔ Tiles bs 0 parts := by
  rw [tiles_iff (Nat.zero_le _), List.drop_zero, ← h]
  constructor
  · rintro rfl
    rfl
  · rintro rfl
    rfl

/-! ## Several reads -/

/-- Whether bytes are what is expected at each offset. They are looked at in order, up to the first that are not. -/
def standAt? (bs : Bytes) : List (Nat × Bytes) → Option Bool
  | [] => some true
  | (start, expected) :: rest => do
    let found ← slice? bs start (start + expected.length)
    if found = expected then standAt? bs rest else return false

/-- The slices at the given places. -/
def slices? (bs : Bytes) : List (Nat × Nat) → Option (List Bytes)
  | [] => some []
  | (start, stop) :: rest => do return (← slice? bs start stop) :: (← slices? bs rest)

theorem isSome_standAt? {bs : Bytes} {fixed : List (Nat × Bytes)} (h : ∀ p ∈ fixed, p.1 + p.2.length ≤ bs.length) :
    (standAt? bs fixed).isSome = true := by
  induction fixed with
  | nil => rfl
  | cons p rest ih =>
    obtain ⟨start, expected⟩ := p
    obtain ⟨found, hfound⟩ := Option.isSome_iff_exists.1 (isSome_slice? (Nat.le_add_right start _) (h _ List.mem_cons_self))
    rw [standAt?, hfound, Option.bind_eq_bind, Option.bind_some]
    split
    · exact ih fun q hq => h q (List.mem_cons_of_mem _ hq)
    · rfl

theorem standAt?_eq_some_true_iff {bs : Bytes} {fixed : List (Nat × Bytes)} :
    standAt? bs fixed = some true ↔ ∀ p ∈ fixed, slice? bs p.1 (p.1 + p.2.length) = some p.2 := by
  induction fixed with
  | nil => simp [standAt?]
  | cons p rest ih =>
    obtain ⟨start, expected⟩ := p
    rw [List.forall_mem_cons, ← ih, standAt?, Option.bind_eq_bind, Option.bind_eq_some_iff]
    constructor
    · rintro ⟨found, hfound, h⟩
      split at h
      · rename_i he
        exact ⟨he ▸ hfound, h⟩
      · cases h
    · rintro ⟨hfound, h⟩
      exact ⟨expected, hfound, by rw [if_pos rfl, h]⟩

theorem isSome_slices? {bs : Bytes} {places : List (Nat × Nat)} (h : ∀ p ∈ places, p.1 ≤ p.2 ∧ p.2 ≤ bs.length) :
    (slices? bs places).isSome = true := by
  induction places with
  | nil => rfl
  | cons p rest ih =>
    obtain ⟨start, stop⟩ := p
    obtain ⟨hle, hlen⟩ := h _ List.mem_cons_self
    obtain ⟨part, hpart⟩ := Option.isSome_iff_exists.1 (isSome_slice? hle hlen)
    obtain ⟨parts, hparts⟩ := Option.isSome_iff_exists.1 (ih fun q hq => h q (List.mem_cons_of_mem _ hq))
    rw [slices?, hpart, hparts]
    rfl

end AuditChain.Script
