import Mathlib.Data.Finset.Insert
import AuditChain.Proofs.ConfFile
/-!
# Lists with distinct names

A list is read, added to and taken from. Whatever is done, its entries stay valid and their names distinct, so the
first entry of a name is the only one. A reader may keep the names in a set of its own, or look through the entries.
-/

namespace AuditChain.Masternode.Conf

open Text (trim)

variable {c : Conf} {e : Entry} {name : String}

/-! ## Looking up -/

theorem isSome_get? (c : Conf) (name : String) : (c.get? name).isSome = c.has name := List.isSome_find?

/-- The entries that have a name are that which is found under it. -/
theorem WellFormed.get?_eq_some_iff (h : c.WellFormed) : c.get? name = some e ↔ e ∈ c.entries ∧ e.name = name := by
  constructor
  · intro hfound
    exact ⟨List.mem_of_find?_eq_some hfound, by simpa using List.find?_some hfound⟩
  · rintro ⟨he, rfl⟩
    obtain ⟨e', hfound⟩ : ∃ e', c.get? e.name = some e' := by
      rw [← Option.isSome_iff_exists, isSome_get?, has_eq_true_iff]
      exact ⟨e, he, rfl⟩
    have hname : e'.name = e.name := by simpa using List.find?_some hfound
    rw [hfound, List.inj_on_of_nodup_map h.distinct (List.mem_of_find?_eq_some hfound) he hname]

/-! ## Reading with a set of names -/

/-- Reads lines as `readLines` does, and looks the names up in a set of those before. -/
def readLinesWith : (number : Nat) → (names : Finset String) → Conf → List (List Char) → Except ConfigError Conf
  | _, _, c, [] => .ok c
  | number, names, c, line :: rest =>
    let line := trim line
    if isSkipped line then readLinesWith (number + 1) names c rest
    else
      match Entry.ofChars line with
      | .error error => .error (.line number error)
      | .ok e =>
        if e.name ∈ names then .error (.duplicateName e.name)
        else readLinesWith (number + 1) (insert e.name names) ⟨c.entries ++ [e]⟩ rest

/-- As long as the set has the names of the entries, it makes no difference. -/
theorem readLinesWith_eq {names : Finset String} (number : Nat) (h : ∀ name, name ∈ names ↔ c.has name = true)
    (lines : List (List Char)) : readLinesWith number names c lines = readLines number c lines := by
  induction lines generalizing number names c with
  | nil => rfl
  | cons line lines ih =>
    rw [readLinesWith, readLines]
    split
    · exact ih (number + 1) h
    · cases Entry.ofChars (trim line) with
      | error error => rfl
      | ok e =>
        have hnames : ∀ name, name ∈ insert e.name names ↔ (Conf.mk (c.entries ++ [e])).has name = true := by
          intro name
          rw [Finset.mem_insert, h, or_comm, @eq_comm _ name]
          simp [has]
        simp only [h, ih (number + 1) hnames]

/-! ## Main theorem -/

/-- In every list that can be made the entries are valid and the names distinct, and an entry is found under a name just
if it has that name. Adding an entry that is valid and new appends it, and removing a name takes out the entry of that
name and leaves the others in order. Neither changes anything else, and nothing at all when it fails. Reading keeps the
names distinct by means of a set, with the same result. -/
theorem kept_by_changes (h : c.Reachable) :
    (∀ e ∈ c.entries, e.validate = .ok ()) ∧ (c.entries.map Entry.name).Nodup ∧
    (∀ name e, c.get? name = some e ↔ e ∈ c.entries ∧ e.name = name) ∧
    (∀ name, (c.get? name).isSome = true ↔ c.has name = true) ∧
    (∀ e, ((c.add e).1 = .ok () ↔ e.validate = .ok () ∧ c.has e.name = false) ∧
      ((c.add e).1 = .ok () → (c.add e).2.entries = c.entries ++ [e]) ∧
      ((c.add e).1 ≠ .ok () → (c.add e).2 = c)) ∧
    (∀ name, ((c.remove name).1 = .ok () ↔ c.has name = true) ∧
      ((c.remove name).1 = .ok () → ∃ before e after, c.entries = before ++ e :: after ∧ c.get? name = some e ∧
        (c.remove name).2.entries = before ++ after ∧ (c.remove name).2.has name = false) ∧
      ((c.remove name).1 ≠ .ok () → (c.remove name).2 = c)) ∧
    ∀ text, parse text = readLinesWith 1 ∅ empty (Text.lines text.toList) := by
  have hwf := h.wellFormed
  refine ⟨hwf.valid, hwf.distinct, fun name e => hwf.get?_eq_some_iff, fun name => by rw [isSome_get?], fun e => ?_,
    fun name => ?_, fun text => ?_⟩
  · have hadding := c.adding e
    generalize c.add e = result at hadding
    cases hadding with
    | added hvalid hnew => simp [hvalid, hnew]
    | invalid herror => simp [herror]
    | taken _ htaken => simp [htaken]
  · have hremoving := c.removing name
    generalize c.remove name = result at hremoving
    cases hremoving with
    | @removed before e after hentries hname =>
      have hmem : e ∈ c.entries := by simp [hentries]
      have hfound : c.get? name = some e := hwf.get?_eq_some_iff.2 ⟨hmem, hname⟩
      have hgone : (Conf.mk (before ++ after)).has name = false := by
        have hdistinct := hwf.distinct
        rw [hentries] at hdistinct
        exact hname ▸ has_others_of_nodup hdistinct
      have hhas : c.has name = true := has_eq_true_iff.2 ⟨e, hmem, hname⟩
      exact ⟨by simp [hhas], fun _ => ⟨before, e, after, hentries, hfound, rfl, hgone⟩, fun hne => absurd rfl hne⟩
    | unknown hnone => simp [hnone]
  · exact (readLinesWith_eq 1 (by simp [has, empty]) _).symm

/-- Two entries are added, and one of them again, which fails. The first one is found and taken out. -/
theorem kept_by_changes_two :
    let a := plainEntry "mn1" "key"
    let b := plainEntry "mn2" "key"
    let c := (((empty.add a).2.add b).2.add a).2
    c.Reachable ∧ c.entries = [a, b] ∧ c.get? "mn1" = some a ∧ (c.add a).1 ≠ .ok () ∧ (c.add a).2 = c ∧
      (c.remove "mn1").1 = .ok () ∧ (c.remove "mn1").2.entries = [b] ∧ (c.remove "mn1").2.has "mn1" = false := by
  intro a b c
  have hreachable : c.Reachable := .added a (.added b (.added a .empty))
  have hentries : c.entries = [a, b] := by decide +kernel
  obtain ⟨-, -, hget, -, hadd, hremove, -⟩ := kept_by_changes hreachable
  have hhas : c.has "mn1" = true := by decide +kernel
  have hfound : c.get? "mn1" = some a := (hget "mn1" a).2 ⟨by simp [hentries], rfl⟩
  have hfails : (c.add a).1 ≠ .ok () := fun hok => by
    have hnew := ((hadd a).1.1 hok).2
    rw [show a.name = "mn1" from rfl, hhas] at hnew
    cases hnew
  have hok : (c.remove "mn1").1 = .ok () := (hremove "mn1").1.2 hhas
  obtain ⟨before, e, after, hsplit, he, hrest, hgone⟩ := (hremove "mn1").2.1 hok
  have hb : before ++ after = [b] := by
    obtain rfl : a = e := Option.some.inj (hfound.symm.trans he)
    rw [hentries] at hsplit
    match before, hsplit with
    | [], hsplit => exact (List.cons.inj hsplit).2.symm
    | [_], hsplit => exact absurd (List.cons.inj (List.cons.inj hsplit).2).1 (by decide +kernel)
    | _ :: _ :: _, hsplit => simp at hsplit
  exact ⟨hreachable, hentries, hfound, hfails, (hadd a).2.2 hfails, hok, hrest.trans hb, hgone⟩

end AuditChain.Masternode.Conf
