import Mathlib.Data.List.Nodup
import AuditChain.Masternode.Conf
import AuditChain.Proofs.AddressTexts
/-!
# A saved list is read back

The writer puts blanks between the fields of an entry and a line feed after them, whatever the fields hold.
The reader takes words for fields and skips lines that start with a hash sign. A valid entry rules out
all that the two disagree on but a name that starts with a hash sign and a key with blanks.
-/

namespace AuditChain.Masternode

open Text (isBlank IsWord Unbroken words trim)

/-! ## Entries -/

namespace Entry

theorem hasBlank_eq_false_iff {text : String} : hasBlank text = false ↔ Unbroken text.toList := by
  simp [hasBlank, Unbroken]

theorem validate_eq_ok_iff {e : Entry} :
    e.validate = .ok () ↔
      (e.name ≠ "" ∧ hasBlank e.name = false) ∧ (∃ endpoint, Net.Endpoint.ofText? e.address = some endpoint) ∧
        e.privkey ≠ "" ∧ ∃ txid, FixedBytes.ofHex? 32 e.txid = some txid := by
  unfold validate endpoint collateral
  by_cases hname : e.name = ""
  · simp [hname]
  cases hblank : hasBlank e.name with
  | true => simp
  | false =>
    cases Net.Endpoint.ofText? e.address with
    | none => simp [hname, bind, Except.bind]
    | some endpoint =>
      by_cases hkey : e.privkey = ""
      · simp [hname, hkey, bind, Except.bind, throw, throwThe, MonadExceptOf.throw]
      · cases FixedBytes.ofHex? 32 e.txid <;> simp [hname, hkey, bind, Except.bind, pure, Except.pure]

/-- What a valid entry may lack to be read back: its line is no comment, and its key is one word. -/
structure Legible (e : Entry) : Prop where
  name : e.name.toList.head? ≠ some '#'
  privkey : hasBlank e.privkey = false

/-! ## Lines -/

/-- A line is an entry if its words are the fields of a valid one. -/
theorem ofChars_eq_ok_iff {cs : List Char} {e : Entry} :
    ofChars cs = .ok e ↔
      ∃ index, words cs = [e.name.toList, e.address.toList, e.privkey.toList, e.txid.toList, index] ∧
        Text.readUInt32? index = some e.index ∧ e.validate = .ok () := by
  unfold ofChars
  constructor
  · intro h
    split at h
    · rename_i name address privkey txid index hwords
      split at h
      · cases h
      · rename_i n hindex
        dsimp only at h
        split at h
        · rename_i hvalid
          obtain rfl := Except.ok.inj h
          exact ⟨index, by simp only [String.toList_ofList]; exact hwords, hindex, hvalid⟩
        · cases h
    · cases h
  · rintro ⟨index, hwords, hindex, hvalid⟩
    simp only [hwords, hindex, String.ofList_toList]
    rw [show (⟨e.name, e.address, e.privkey, e.txid, e.index⟩ : Entry) = e from rfl, hvalid]

variable {e : Entry}

/-- The fields of a legible entry that is valid. -/
theorem isWord_fields (hv : e.validate = .ok ()) (hl : e.Legible) :
    IsWord e.name.toList ∧ IsWord e.address.toList ∧ IsWord e.privkey.toList ∧ IsWord e.txid.toList := by
  obtain ⟨⟨hname, hblank⟩, ⟨endpoint, hendpoint⟩, hkey, txid, htxid⟩ := validate_eq_ok_iff.1 hv
  refine ⟨⟨?_, hasBlank_eq_false_iff.1 hblank⟩, Net.Endpoint.isWord_of_ofChars? hendpoint,
    ⟨?_, hasBlank_eq_false_iff.1 hl.privkey⟩, FixedBytes.isWord_of_ofHex? (by decide) htxid⟩
  · simpa using hname
  · simpa using hkey

theorem words_toChars (hv : e.validate = .ok ()) (hl : e.Legible) :
    words e.toChars =
      [e.name.toList, e.address.toList, e.privkey.toList, e.txid.toList, Text.toDigits e.index.toNat] := by
  obtain ⟨hname, haddress, hkey, htxid⟩ := isWord_fields hv hl
  have hspace : isBlank ' ' = true := by decide
  rw [toChars, Text.words_append_blank hname hspace, Text.words_append_blank haddress hspace,
    Text.words_append_blank hkey hspace, Text.words_append_blank htxid hspace,
    Text.words_of_isWord (Text.isWord_toDigits _)]

theorem ofChars_toChars (hv : e.validate = .ok ()) (hl : e.Legible) : ofChars e.toChars = .ok e :=
  ofChars_eq_ok_iff.2 ⟨_, words_toChars hv hl, Text.readUInt32?_toDigits e.index, hv⟩

theorem head?_toChars (h : IsWord e.name.toList) : e.toChars.head? = e.name.toList.head? := by
  obtain ⟨c, name, hname⟩ := List.exists_cons_of_ne_nil h.1
  rw [toChars, hname]
  rfl

theorem getLast?_toChars (e : Entry) : e.toChars.getLast? = (Text.toDigits e.index.toNat).getLast? := by
  have hchars : e.toChars = (e.name.toList ++ ' ' :: (e.address.toList ++ ' ' :: (e.privkey.toList ++
      ' ' :: (e.txid.toList ++ [' '])))) ++ Text.toDigits e.index.toNat := by
    simp [toChars]
  rw [hchars, List.getLast?_append, List.getLast?_eq_some_getLast (Text.isWord_toDigits e.index.toNat).1, Option.some_or]

theorem trim_toChars (hv : e.validate = .ok ()) (hl : e.Legible) : trim e.toChars = e.toChars := by
  obtain ⟨hname, -, -, -⟩ := isWord_fields hv hl
  refine Text.trim_eq_self (fun c hc => ?_) fun c hc => ?_
  · rw [head?_toChars hname] at hc
    exact hname.2 c (List.mem_of_mem_head? hc)
  · rw [getLast?_toChars] at hc
    exact (Text.isWord_toDigits e.index.toNat).2 c (List.mem_of_getLast? hc)

theorem not_isSkipped_toChars (hv : e.validate = .ok ()) (hl : e.Legible) : Conf.isSkipped e.toChars = false := by
  have hhead : e.toChars.head? ≠ some '#' := by
    rw [head?_toChars (isWord_fields hv hl).1]
    exact hl.name
  have hne : e.toChars ≠ [] := by simp [toChars]
  simp [Conf.isSkipped, hhead, hne]

theorem no_line_end_in_toChars (hv : e.validate = .ok ()) (hl : e.Legible) :
    ∀ c ∈ e.toChars, c ≠ '\n' ∧ c ≠ '\r' := by
  obtain ⟨hname, haddress, hkey, htxid⟩ := isWord_fields hv hl
  have hindex := Text.isWord_toDigits e.index.toNat
  intro c hc
  have hblank : isBlank c = false ∨ c = ' ' := by
    simp only [toChars, List.mem_append, List.mem_cons] at hc
    rcases hc with hc | rfl | hc | rfl | hc | rfl | hc | rfl | hc
    · exact .inl (hname.2 c hc)
    · exact .inr rfl
    · exact .inl (haddress.2 c hc)
    · exact .inr rfl
    · exact .inl (hkey.2 c hc)
    · exact .inr rfl
    · exact .inl (htxid.2 c hc)
    · exact .inr rfl
    · exact .inl (hindex.2 c hc)
  constructor
  all_goals
    rintro rfl
    revert hblank
    decide

end Entry

/-! ## Lists -/

namespace Conf

variable {c : Conf} {e : Entry} {es before after : List Entry} {name : String}

theorem has_eq_false_iff : c.has name = false ↔ name ∉ c.entries.map Entry.name := by
  simp [has]

theorem has_eq_true_iff : c.has name = true ↔ ∃ e ∈ c.entries, e.name = name := by
  simp [has]

theorem nodup_names_concat_iff :
    ((es ++ [e]).map Entry.name).Nodup ↔ (Conf.mk es).has e.name = false ∧ (es.map Entry.name).Nodup := by
  rw [has_eq_false_iff, List.map_append, List.map_singleton, ← List.concat_eq_append, List.nodup_concat]

/-- In a list with distinct names no other entry has the name of an entry. -/
theorem has_others_of_nodup (h : ((before ++ e :: after).map Entry.name).Nodup) :
    (Conf.mk (before ++ after)).has e.name = false := by
  rw [List.map_append, List.map_cons, List.nodup_middle, List.nodup_cons] at h
  rw [has_eq_false_iff, List.map_append]
  exact h.1

theorem has_before_of_nodup (h : ((before ++ e :: after).map Entry.name).Nodup) :
    (Conf.mk before).has e.name = false := by
  have hothers := has_others_of_nodup h
  rw [has_eq_false_iff, List.map_append, List.mem_append, not_or] at hothers
  exact has_eq_false_iff.2 hothers.1

/-- What every operation on a list keeps. -/
structure WellFormed (c : Conf) : Prop where
  valid : ∀ e ∈ c.entries, e.validate = .ok ()
  distinct : (c.entries.map Entry.name).Nodup

theorem wellFormed_empty : empty.WellFormed := ⟨fun _ he => absurd he List.not_mem_nil, List.nodup_nil⟩

theorem WellFormed.append (h : c.WellFormed) (hv : e.validate = .ok ()) (hnew : c.has e.name = false) :
    WellFormed ⟨c.entries ++ [e]⟩ := by
  refine ⟨fun d hd => ?_, ?_⟩
  · rcases List.mem_append.1 hd with hd | hd
    · exact h.valid d hd
    · exact List.mem_singleton.1 hd ▸ hv
  · exact nodup_names_concat_iff.2 ⟨hnew, h.distinct⟩

theorem WellFormed.of_sublist {entries : List Entry} (h : c.WellFormed) (hs : entries.Sublist c.entries) :
    WellFormed ⟨entries⟩ :=
  ⟨fun e he => h.valid e (hs.subset he), h.distinct.sublist (hs.map Entry.name)⟩

/-- What holds of a list that is read line by line, if it holds at first and every line that counts keeps it. -/
theorem readLines_induction {P : Conf → Prop}
    (step : ∀ c line e, P c → isSkipped (trim line) = false → Entry.ofChars (trim line) = .ok e →
      c.has e.name = false → P ⟨c.entries ++ [e]⟩)
    {lines : List (List Char)} {number : Nat} {c c' : Conf} (h : P c) (hread : readLines number c lines = .ok c') :
    P c' := by
  induction lines generalizing number c with
  | nil =>
    obtain rfl := Except.ok.inj hread
    exact h
  | cons line lines ih =>
    unfold readLines at hread
    dsimp only at hread
    split at hread
    · exact ih h hread
    · rename_i hskip
      split at hread
      · cases hread
      · rename_i e he
        split at hread
        · cases hread
        · rename_i hnew
          exact ih (step c line e h (by simpa using hskip) he (by simpa using hnew)) hread

theorem wellFormed_of_parse {text : String} (h : parse text = .ok c) : c.WellFormed := by
  refine readLines_induction (fun c line e hc _ he hnew => hc.append ?_ hnew) wellFormed_empty h
  obtain ⟨-, -, -, hv⟩ := Entry.ofChars_eq_ok_iff.1 he
  exact hv

/-- What was read can be read again: its fields are words, and its line was no comment. -/
theorem legible_of_parse {text : String} (h : parse text = .ok c) : ∀ e ∈ c.entries, e.Legible := by
  refine readLines_induction (P := fun c => ∀ e ∈ c.entries, e.Legible) (fun c line e hc hskip he _ => ?_)
    (fun _ he => absurd he List.not_mem_nil) h
  obtain ⟨index, hwords, -, -⟩ := Entry.ofChars_eq_ok_iff.1 he
  have hkey : e.privkey.toList ∈ words (trim line) := by simp [hwords]
  have hlegible : e.Legible := by
    refine ⟨?_, Entry.hasBlank_eq_false_iff.2 (Text.isWord_of_mem_words hkey).2⟩
    cases hline : trim line with
    | nil => simp [isSkipped, hline] at hskip
    | cons d rest =>
      have hfirst : d ∈ (trim line).head? := by rw [hline]; rfl
      obtain ⟨v, vs, hsplit⟩ : ∃ v vs, words (d :: rest) = (d :: v) :: vs := Text.head?_words (Text.head?_trim hfirst)
      rw [hline, hsplit] at hwords
      have hname : e.name.toList = d :: v := (List.cons.inj hwords).1.symm
      simpa [isSkipped, hline, hname] using hskip
  intro d hd
  rcases List.mem_append.1 hd with hd | hd
  · exact hc d hd
  · exact List.mem_singleton.1 hd ▸ hlegible

/-! ## Reading what was written -/

theorem readLines_of_skipped {line : List Char} {lines : List (List Char)} {number : Nat}
    (h : isSkipped (trim line) = true) : readLines number c (line :: lines) = readLines (number + 1) c lines := by
  rw [readLines]
  exact if_pos h

theorem readLines_of_entry {line : List Char} {lines : List (List Char)} {number : Nat}
    (h : isSkipped (trim line) = false) (he : Entry.ofChars (trim line) = .ok e) (hnew : c.has e.name = false) :
    readLines number c (line :: lines) = readLines (number + 1) ⟨c.entries ++ [e]⟩ lines := by
  rw [readLines]
  simp [h, he, hnew]

/-- The entries of a list come after those that were read before. -/
theorem readLines_written (done : List Entry) {entries : List Entry} (number : Nat)
    (h : WellFormed ⟨done ++ entries⟩) (hl : ∀ e ∈ entries, e.Legible) :
    readLines number ⟨done⟩ (Text.lines (entries.flatMap fun e => e.toChars ++ ['\n'])) = .ok ⟨done ++ entries⟩ := by
  induction entries generalizing done number with
  | nil => simp [Text.lines, readLines]
  | cons e entries ih =>
    have hv : e.validate = .ok () := h.valid e (by simp)
    have hlegible := hl e List.mem_cons_self
    have hnew : (Conf.mk done).has e.name = false := has_before_of_nodup h.distinct
    have hlines : Text.lines ((e :: entries).flatMap fun e => e.toChars ++ ['\n']) =
        e.toChars :: Text.lines (entries.flatMap fun e => e.toChars ++ ['\n']) := by
      rw [List.flatMap_cons, List.append_assoc, List.singleton_append, Text.lines_append,
        Text.lines_of_line (Entry.no_line_end_in_toChars hv hlegible)]
      rfl
    have htrim := Entry.trim_toChars hv hlegible
    rw [hlines, readLines_of_entry (htrim.symm ▸ Entry.not_isSkipped_toChars hv hlegible)
      (htrim.symm ▸ Entry.ofChars_toChars hv hlegible) hnew]
    have happend : done ++ e :: entries = (done ++ [e]) ++ entries := List.append_cons ..
    rw [happend] at h ⊢
    exact ih (done ++ [e]) (number + 1) h fun d hd => hl d (List.mem_cons_of_mem e hd)

theorem readLines_of_all_skipped {skipped : List (List Char)} (number : Nat) (lines : List (List Char))
    (h : ∀ line ∈ skipped, isSkipped (trim line) = true) :
    readLines number c (skipped ++ lines) = readLines (number + skipped.length) c lines := by
  induction skipped generalizing number with
  | nil => rfl
  | cons line skipped ih =>
    obtain ⟨hline, hskipped⟩ := List.forall_mem_cons.1 h
    rw [List.cons_append, readLines_of_skipped hline, ih (number + 1) hskipped, List.length_cons]
    congr 1
    omega

/-- The preamble takes four lines. -/
theorem readLines_preamble (rest : List Char) :
    readLines 1 c (Text.lines (preamble.toList ++ rest)) = readLines 5 c (Text.lines rest) := by
  obtain ⟨hend, hskipped, hlength⟩ : preamble.toList = preamble.toList.dropLast ++ ['\n'] ∧
      (∀ line ∈ Text.lines preamble.toList, isSkipped (trim line) = true) ∧
        (Text.lines preamble.toList).length = 4 := by decide +kernel
  have hlines : Text.lines (preamble.toList ++ rest) = Text.lines preamble.toList ++ Text.lines rest := by
    rw [hend, List.append_assoc, List.singleton_append, Text.lines_append]
  rw [hlines, readLines_of_all_skipped 1 _ hskipped, hlength]

/-! ## Adding and removing -/

/-- All that adding an entry can do. -/
inductive Adding (c : Conf) (e : Entry) : Except ConfigError Unit × Conf → Prop
  | added : e.validate = .ok () → c.has e.name = false → Adding c e (.ok (), ⟨c.entries ++ [e]⟩)
  | invalid {error : EntryError} : e.validate = .error error → Adding c e (.error (.entry error), c)
  | taken : e.validate = .ok () → c.has e.name = true → Adding c e (.error (.duplicateName e.name), c)

theorem adding (c : Conf) (e : Entry) : c.Adding e (c.add e) := by
  unfold add
  split
  · rename_i herror
    exact .invalid herror
  · rename_i hvalid
    split
    · rename_i htaken
      exact .taken hvalid htaken
    · rename_i hnew
      exact .added hvalid (by simpa using hnew)

/-- All that removing a name can do. -/
inductive Removing (c : Conf) (name : String) : Except ConfigError Unit × Conf → Prop
  | removed {before : List Entry} {e : Entry} {after : List Entry} : c.entries = before ++ e :: after → e.name = name →
      Removing c name (.ok (), ⟨before ++ after⟩)
  | unknown : c.has name = false → Removing c name (.error (.unknownName name), c)

theorem removing (c : Conf) (name : String) : c.Removing name (c.remove name) := by
  unfold remove
  split
  · rename_i hhas
    obtain ⟨e, he, hname⟩ := has_eq_true_iff.1 hhas
    obtain ⟨e', before, after, -, hname', hentries, herase⟩ :=
      List.exists_of_eraseP (p := (·.name == name)) he (by simpa using hname)
    rw [herase]
    exact .removed hentries (by simpa using hname')
  · rename_i hhas
    exact .unknown (by simpa using hhas)

/-- The lists that can be made: an empty one or one that was read, after any changes. -/
inductive Reachable : Conf → Prop
  | empty : Reachable empty
  | parsed {text : String} {c : Conf} : parse text = .ok c → Reachable c
  | added {c : Conf} (e : Entry) : Reachable c → Reachable (c.add e).2
  | removed {c : Conf} (name : String) : Reachable c → Reachable (c.remove name).2

theorem WellFormed.add (h : c.WellFormed) (e : Entry) : (c.add e).2.WellFormed := by
  have hadding := c.adding e
  generalize c.add e = result at hadding
  cases hadding with
  | added hvalid hnew => exact h.append hvalid hnew
  | invalid _ => exact h
  | taken _ _ => exact h

theorem WellFormed.remove (h : c.WellFormed) (name : String) : (c.remove name).2.WellFormed := by
  have hremoving := c.removing name
  generalize c.remove name = result at hremoving
  cases hremoving with
  | @removed before e after hentries _ =>
    refine h.of_sublist ?_
    rw [hentries]
    exact (List.Sublist.refl before).append (List.sublist_cons_self e after)
  | unknown _ => exact h

theorem Reachable.wellFormed (h : c.Reachable) : c.WellFormed := by
  induction h with
  | empty => exact wellFormed_empty
  | parsed h => exact wellFormed_of_parse h
  | added e _ ih => exact ih.add e
  | removed name _ ih => exact ih.remove name

/-! ## Files -/

theorem readText_toUTF8 (text : String) : readText (some text.toUTF8.data.toList) = .ok text := by
  have htext : String.fromUTF8? ⟨text.toUTF8.data.toList.toArray⟩ = some text := dif_pos text.isValidUTF8
  simp only [readText, htext]

theorem load_toUTF8 (text : String) : load (some text.toUTF8.data.toList) = parse text := by
  rw [load, readText_toUTF8]

/-- The preamble counts for nothing but the line numbers of errors. -/
theorem load_save_eq_readLines (c : Conf) :
    load (some c.save) = readLines 5 empty (Text.lines (c.entries.flatMap fun e => e.toChars ++ ['\n'])) := by
  rw [save, load_toUTF8, parse, toText, String.toList_ofList, readLines_preamble]

/-- A list that can be made is read back from its file as it was, entry by entry, just if no name starts a
comment and no key has a blank. -/
theorem load_save_iff (h : c.Reachable) : load (some c.save) = .ok c ↔ ∀ e ∈ c.entries, e.Legible := by
  constructor
  · intro hload
    rw [save, load_toUTF8] at hload
    exact legible_of_parse hload
  · intro hl
    rw [load_save_eq_readLines]
    exact readLines_written [] 5 h.wellFormed hl

/-- An entry with the given name and key that is valid in all else. -/
def plainEntry (name privkey : String) : Entry :=
  ⟨name, "192.0.2.1:53572", privkey, "2bcd3c84c84f87eaa86e4e56834c92927a07f9e18718810b92e0d0324456a67c", 0⟩

theorem load_save_iff_one : (empty.add (plainEntry "mn1" "key")).1 = .ok () ∧
    load (some (empty.add (plainEntry "mn1" "key")).2.save) = .ok (empty.add (plainEntry "mn1" "key")).2 := by
  have hadd : empty.add (plainEntry "mn1" "key") = (.ok (), ⟨[plainEntry "mn1" "key"]⟩) := by decide +kernel
  refine ⟨congrArg Prod.fst hadd, (load_save_iff (.added _ .empty)).2 fun e he => ?_⟩
  rw [hadd, List.mem_singleton] at he
  subst he
  exact ⟨by decide +kernel, by decide +kernel⟩

/-- Neither of the two is refused when it is added. The one entry is lost and the other spoils the file. -/
theorem load_save_not_legible :
    (∃ c, empty.add (plainEntry "#mn1" "key") = (.ok (), c) ∧ load (some c.save) = .ok empty ∧ c ≠ empty) ∧
      ∃ c, empty.add (plainEntry "mn1" "my key") = (.ok (), c) ∧
        load (some c.save) = .error (.line 5 (.fieldCount 6)) := by
  refine ⟨⟨⟨[plainEntry "#mn1" "key"]⟩, by decide +kernel, ?_, by decide +kernel⟩,
    ⟨⟨[plainEntry "mn1" "my key"]⟩, by decide +kernel, ?_⟩⟩
  all_goals
    rw [load_save_eq_readLines]
    decide +kernel

end Conf

end AuditChain.Masternode
