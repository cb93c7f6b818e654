import Mathlib.Data.List.Forall2
import Mathlib.Data.List.Induction
import AuditChain.Proofs.ConfFile
import AuditChain.Proofs.TextShapes
/-!
# What a text of the controller's list comes to

A line counts if it is neither blank nor a comment. The lines that count are judged one by one, in order: each has the
fields of a valid entry, or it has a fault, and no entry may have the name of an earlier one. So a text is read as the
entries of its lines, or else the first line that offends gives the error, with the number that it has among all lines.
-/

namespace AuditChain.Masternode

open Text (Ignored IsLines IsUInt32 pieces trim words)

/-! ## Lines -/

namespace Entry

variable {e : Entry} {line : List Char} {fault : LineError}

/-- The line has the five fields of the entry, which is valid. -/
structure Fills (e : Entry) (line : List Char) : Prop where
  fields : ∃ index, IsUInt32 index e.index ∧
    pieces line = [e.name.toList, e.address.toList, e.privkey.toList, e.txid.toList, index]
  valid : e.validate = .ok ()

/-- What is wrong with a line. -/
inductive Fault (line : List Char) : LineError → Prop
  | fieldCount : (pieces line).length ≠ 5 → Fault line (.fieldCount (pieces line).length)
  | index {name address privkey txid index : List Char} : pieces line = [name, address, privkey, txid, index] →
      (∀ n, ¬ IsUInt32 index n) → Fault line (.index (String.ofList index))
  | entry {e : Entry} {index : List Char} {error : EntryError} :
      pieces line = [e.name.toList, e.address.toList, e.privkey.toList, e.txid.toList, index] →
      IsUInt32 index e.index → e.validate = .error error → Fault line (.entry error)

theorem ofChars_trim_eq_ok_iff : ofChars (trim line) = .ok e ↔ e.Fills line := by
  rw [ofChars_eq_ok_iff, Text.words_trim, Text.words_eq_pieces]
  constructor
  · rintro ⟨index, hfields, hindex, hvalid⟩
    exact ⟨⟨index, Text.readUInt32?_eq_some_iff.1 hindex, hfields⟩, hvalid⟩
  · rintro ⟨⟨index, hindex, hfields⟩, hvalid⟩
    exact ⟨index, hfields, Text.readUInt32?_eq_some_iff.2 hindex, hvalid⟩

theorem Fills.unique {e' : Entry} (h : e.Fills line) (h' : e'.Fills line) : e = e' := by
  have hread := ofChars_trim_eq_ok_iff.2 h
  rw [ofChars_trim_eq_ok_iff.2 h'] at hread
  exact (Except.ok.inj hread).symm

theorem Fault.ofChars_trim (h : Fault line fault) : ofChars (trim line) = .error fault := by
  unfold ofChars
  rw [Text.words_trim, Text.words_eq_pieces]
  cases h with
  | fieldCount hcount =>
    split
    · rename_i hfields
      exact absurd (congrArg List.length hfields) hcount
    · rfl
  | index hfields hindex =>
    have hnone := Option.eq_none_iff_forall_ne_some.2 fun n hn => hindex n (Text.readUInt32?_eq_some_iff.1 hn)
    simp only [hfields, hnone]
  | @entry e index error hfields hindex herror =>
    have hsome := Text.readUInt32?_eq_some_iff.2 hindex
    simp only [hfields, hsome, String.ofList_toList]
    rw [show (⟨e.name, e.address, e.privkey, e.txid, e.index⟩ : Entry) = e from rfl, herror]

/-- A line without a fault has the fields of an entry. -/
theorem exists_fills_or_fault (line : List Char) : (∃ e : Entry, e.Fills line) ∨ ∃ fault, Fault line fault := by
  by_cases hcount : (pieces line).length = 5
  · obtain ⟨name, address, privkey, txid, index, hfields⟩ : ∃ a b c d e, pieces line = [a, b, c, d, e] := by
      match pieces line, hcount with
      | [a, b, c, d, e], _ => exact ⟨a, b, c, d, e, rfl⟩
    by_cases hindex : ∃ n, IsUInt32 index n
    · obtain ⟨n, hn⟩ := hindex
      let e : Entry := ⟨String.ofList name, String.ofList address, String.ofList privkey, String.ofList txid, n⟩
      have hfields : pieces line = [e.name.toList, e.address.toList, e.privkey.toList, e.txid.toList, index] := by
        simp only [e, hfields, String.toList_ofList]
      cases hvalid : e.validate with
      | ok => exact .inl ⟨e, ⟨index, hn, hfields⟩, hvalid⟩
      | error error => exact .inr ⟨_, .entry hfields hn hvalid⟩
    · exact .inr ⟨_, .index hfields (not_exists.1 hindex)⟩
  · exact .inr ⟨_, .fieldCount hcount⟩

end Entry

/-! ## Lists of lines -/

namespace Conf

variable {ls before rest : List (List Char)} {line : List Char} {es done : List Entry} {error : ConfigError}

/-- The lines that are neither blank nor comments. -/
def counted (ls : List (List Char)) : List (List Char) := ls.filter fun line => ¬ Ignored line

/-- The lines that count have the fields of the entries, in order, and the names of the entries are distinct. -/
structure Holds (ls : List (List Char)) (es : List Entry) : Prop where
  fills : List.Forall₂ (fun line e => e.Fills line) (counted ls) es
  distinct : (es.map Entry.name).Nodup

/-- What is wrong with the line of the given number, after lines that hold the given entries. -/
inductive Offends (number : Nat) (es : List Entry) (line : List Char) : ConfigError → Prop
  | fault {fault : LineError} : ¬ Ignored line → Entry.Fault line fault → Offends number es line (.line number fault)
  | duplicate {e : Entry} : ¬ Ignored line → e.Fills line → e.name ∈ es.map Entry.name →
      Offends number es line (.duplicateName e.name)

theorem isSkipped_trim_iff : isSkipped (trim line) = true ↔ Ignored line := by
  simp [isSkipped, Text.ignored_iff]

theorem isSkipped_trim_of_not (h : ¬ Ignored line) : isSkipped (trim line) = false := by
  rw [← Bool.not_eq_true, isSkipped_trim_iff]
  exact h

theorem counted_cons_of_ignored (h : Ignored line) : counted (line :: ls) = counted ls :=
  List.filter_cons_of_neg (by simpa using h)

theorem counted_cons_of_not (h : ¬ Ignored line) : counted (line :: ls) = line :: counted ls :=
  List.filter_cons_of_pos (by simpa using h)

/-- Lines are read up to where they hold entries, and the reading goes on behind them. -/
theorem readLines_append (number : Nat) (h : List.Forall₂ (fun line e => Entry.Fills e line) (counted before) es)
    (hdistinct : ((done ++ es).map Entry.name).Nodup) :
    readLines number ⟨done⟩ (before ++ rest) = readLines (number + before.length) ⟨done ++ es⟩ rest := by
  -- Ignored lines take a number but no entry, so the lines and the entries are not gone through in step.
  induction before generalizing number done es with
  | nil =>
    cases h
    simp
  | cons line before ih =>
    have hnumber : number + (line :: before).length = number + 1 + before.length := by
      rw [List.length_cons]
      omega
    rw [hnumber, List.cons_append]
    by_cases hline : Ignored line
    · rw [counted_cons_of_ignored hline] at h
      rw [readLines_of_skipped (isSkipped_trim_iff.2 hline)]
      exact ih (number + 1) h hdistinct
    · rw [counted_cons_of_not hline] at h
      cases h with
      | @cons _ e _ es hfills h =>
        have hnew : (Conf.mk done).has e.name = false := has_before_of_nodup hdistinct
        rw [List.append_cons] at hdistinct ⊢
        rw [readLines_of_entry (isSkipped_trim_of_not hline) (Entry.ofChars_trim_eq_ok_iff.2 hfills) hnew]
        exact ih (number + 1) h hdistinct

theorem Holds.readLines_append (h : Holds before es) (rest : List (List Char)) :
    readLines 1 empty (before ++ rest) = readLines (before.length + 1) ⟨es⟩ rest := by
  have hread : readLines 1 ⟨[]⟩ (before ++ rest) = readLines (1 + before.length) ⟨[] ++ es⟩ rest :=
    Conf.readLines_append 1 h.fills h.distinct
  rwa [Nat.add_comm] at hread

theorem Offends.readLines_cons {number : Nat} (h : Offends number es line error) (rest : List (List Char)) :
    readLines number ⟨es⟩ (line :: rest) = .error error := by
  rw [readLines]
  cases h with
  | fault hline hfault => simp [isSkipped_trim_of_not hline, hfault.ofChars_trim]
  | @duplicate e hline hfills hname =>
    have hhas : (Conf.mk es).has e.name = true := by
      rw [← Bool.not_eq_false, has_eq_false_iff]
      exact not_not.2 hname
    simp [isSkipped_trim_of_not hline, Entry.ofChars_trim_eq_ok_iff.2 hfills, hhas]

/-- One more line is read, or it offends. -/
theorem Holds.concat (h : Holds before es) (line : List Char) :
    (∃ es', Holds (before ++ [line]) es') ∨ ∃ error, Offends (before.length + 1) es line error := by
  by_cases hline : Ignored line
  · have hcounted : counted (before ++ [line]) = counted before := by simp [counted, hline]
    exact .inl ⟨es, hcounted ▸ h.fills, h.distinct⟩
  have hcounted : counted (before ++ [line]) = counted before ++ [line] := by simp [counted, hline]
  rcases Entry.exists_fills_or_fault line with ⟨e, hfills⟩ | ⟨fault, hfault⟩
  · by_cases hname : e.name ∈ es.map Entry.name
    · exact .inr ⟨_, .duplicate hline hfills hname⟩
    · refine .inl ⟨es ++ [e], ?_, ?_⟩
      · rw [hcounted]
        exact List.rel_append h.fills (.cons hfills .nil)
      · rw [List.map_append, List.nodup_append]
        refine ⟨h.distinct, by simp, fun name hmem name' hname' heq => hname ?_⟩
        rw [List.map_singleton, List.mem_singleton] at hname'
        exact hname' ▸ heq ▸ hmem
  · exact .inr ⟨_, .fault hline hfault⟩

/-- Lines hold entries, up to the first that offends if there is one. -/
theorem holds_or_offends (ls : List (List Char)) :
    (∃ es, Holds ls es) ∨ ∃ before line after es error, ls = before ++ line :: after ∧ Holds before es ∧
      Offends (before.length + 1) es line error := by
  -- From the back, so that all lines in front are judged when a line is, and the first that offends stays the first.
  induction ls using List.reverseRecOn with
  | nil => exact .inl ⟨[], .nil, List.nodup_nil⟩
  | append_singleton ls line ih =>
    rcases ih with ⟨es, h⟩ | ⟨before, first, after, es, error, rfl, h, hoffends⟩
    · exact (h.concat line).imp_right fun ⟨error, hoffends⟩ => ⟨ls, line, [], es, error, rfl, h, hoffends⟩
    · exact .inr ⟨before, first, after ++ [line], es, error, by simp, h, hoffends⟩

theorem Holds.readLines_eq (h : Holds ls es) : readLines 1 empty ls = .ok ⟨es⟩ := by
  have hread := h.readLines_append []
  rwa [List.append_nil, readLines] at hread

theorem Holds.readLines_of_offends (h : Holds before es) (hoffends : Offends (before.length + 1) es line error)
    (after : List (List Char)) : readLines 1 empty (before ++ line :: after) = .error error := by
  rw [h.readLines_append, hoffends.readLines_cons]

theorem readLines_eq_ok_iff {c : Conf} : readLines 1 empty ls = .ok c ↔ Holds ls c.entries := by
  refine ⟨fun h => ?_, Holds.readLines_eq⟩
  rcases holds_or_offends ls with ⟨es, hes⟩ | ⟨before, line, after, es, error, rfl, hes, hoffends⟩
  · rw [hes.readLines_eq] at h
    obtain rfl := Except.ok.inj h
    exact hes
  · rw [hes.readLines_of_offends hoffends] at h
    cases h

theorem readLines_eq_error_iff :
    readLines 1 empty ls = .error error ↔ ∃ before line after es, ls = before ++ line :: after ∧ Holds before es ∧
      Offends (before.length + 1) es line error := by
  constructor
  · intro h
    rcases holds_or_offends ls with ⟨es, hes⟩ | ⟨before, line, after, es, error', rfl, hes, hoffends⟩
    · rw [hes.readLines_eq] at h
      cases h
    · rw [hes.readLines_of_offends hoffends] at h
      obtain rfl := Except.error.inj h
      exact ⟨before, line, after, es, rfl, hes, hoffends⟩
  · rintro ⟨before, line, after, es, rfl, hes, hoffends⟩
    exact hes.readLines_of_offends hoffends after

/-- An entry that was read is read again from the line that is written for it. -/
theorem ofLine_toLine_of_parse {text : String} {c : Conf} {e : Entry} (h : parse text = .ok c) (he : e ∈ c.entries)
    (number : Nat) : Entry.ofLine number e.toLine = .ok e := by
  rw [Entry.ofLine, Entry.toLine, String.toList_ofList,
    Entry.ofChars_toChars ((wellFormed_of_parse h).valid e he) (legible_of_parse h e he)]
  rfl

/-! ## Lines with distinct names -/

/-- The names that lines give are distinct, whatever entries they are the fields of. -/
def DistinctNames (ls : List (List Char)) : Prop :=
  ls.Pairwise fun line line' => ∀ e e' : Entry, e.Fills line → e'.Fills line' → e.name ≠ e'.name

/-- What holds of all entries of some lines holds of what any of the lines is. -/
theorem forall_fills_iff {P : Entry → Prop} (h : List.Forall₂ (fun line e => Entry.Fills e line) ls es) :
    (∀ line ∈ ls, ∀ e : Entry, e.Fills line → P e) ↔ ∀ e ∈ es, P e := by
  induction h with
  | nil => simp
  | @cons line e ls es hfills h ih =>
    have hone : (∀ e' : Entry, e'.Fills line → P e') ↔ P e :=
      ⟨fun hall => hall e hfills, fun he e' hfills' => hfills.unique hfills' ▸ he⟩
    rw [List.forall_mem_cons, List.forall_mem_cons, hone, ih]

theorem nodup_names_iff (h : List.Forall₂ (fun line e => Entry.Fills e line) ls es) :
    (es.map Entry.name).Nodup ↔ DistinctNames ls := by
  unfold DistinctNames
  induction h with
  | nil => simp
  | @cons line e ls es hfills h ih =>
    have hone : (∀ line' ∈ ls, ∀ e₁ e₂ : Entry, e₁.Fills line → e₂.Fills line' → e₁.name ≠ e₂.name) ↔
        ∀ e' ∈ es, e.name ≠ e'.name := by
      rw [← forall_fills_iff h]
      exact ⟨fun hall line' hline e' hfills' => hall line' hline e e' hfills hfills',
        fun hall line' hline e₁ e₂ h₁ h₂ => hfills.unique h₁ ▸ hall line' hline e₂ h₂⟩
    rw [List.map_cons, List.nodup_cons, List.pairwise_cons, hone, ih, List.mem_map]
    simp only [not_exists, not_and, ne_eq, eq_comm]

theorem exists_forall₂_iff {ls : List (List Char)} :
    (∃ es, List.Forall₂ (fun line e => Entry.Fills e line) ls es) ↔ ∀ line ∈ ls, ∃ e : Entry, e.Fills line := by
  induction ls with
  | nil => simp
  | cons line ls ih =>
    rw [List.forall_mem_cons, ← ih]
    constructor
    · rintro ⟨_, h⟩
      cases h with
      | cons hfills h => exact ⟨⟨_, hfills⟩, _, h⟩
    · rintro ⟨⟨e, hfills⟩, es, h⟩
      exact ⟨e :: es, .cons hfills h⟩

theorem exists_holds_iff :
    (∃ es, Holds ls es) ↔ (∀ line ∈ ls, ¬ Ignored line → ∃ e : Entry, e.Fills line) ∧ DistinctNames (counted ls) := by
  have hcounted : (∀ line ∈ ls, ¬ Ignored line → ∃ e : Entry, e.Fills line) ↔
      ∀ line ∈ counted ls, ∃ e : Entry, e.Fills line := by
    simp [counted, List.mem_filter]
  rw [hcounted, ← exists_forall₂_iff]
  constructor
  · rintro ⟨es, hfills, hdistinct⟩
    exact ⟨⟨es, hfills⟩, (nodup_names_iff hfills).1 hdistinct⟩
  · rintro ⟨⟨es, hfills⟩, hdistinct⟩
    exact ⟨es, hfills, (nodup_names_iff hfills).2 hdistinct⟩

/-! ## Main theorem -/

/-- A text is read just if each of its lines that counts has the fields of a valid entry and the names are distinct,
and then as those entries in order, each of which is read again from its own line. If not, the first line that offends
gives the error: the lines before it are in order, and its number counts all of them. Every text has lines
(`Text.isLines_lines`), in one way. -/
theorem parse_exact {text : String} {ls : List (List Char)} (hls : IsLines text.toList ls) :
    ((∃ c, parse text = .ok c) ↔
      (∀ line ∈ ls, ¬ Ignored line → ∃ e : Entry, e.Fills line) ∧ DistinctNames (counted ls)) ∧
    (∀ c, parse text = .ok c ↔ Holds ls c.entries) ∧
    (∀ c, parse text = .ok c → ∀ e ∈ c.entries, ∀ number, Entry.ofLine number e.toLine = .ok e) ∧
    (∀ error, parse text = .error error ↔ ∃ before line after es, ls = before ++ line :: after ∧ Holds before es ∧
      Offends (before.length + 1) es line error) := by
  have hparse : parse text = readLines 1 empty ls := by rw [parse, hls.lines_eq]
  have hok : ∀ c, parse text = .ok c ↔ Holds ls c.entries := fun c => by rw [hparse, readLines_eq_ok_iff]
  refine ⟨?_, hok, fun c h e he => ofLine_toLine_of_parse h he, fun error => by rw [hparse, readLines_eq_error_iff]⟩
  rw [← exists_holds_iff]
  constructor
  · rintro ⟨c, h⟩
    exact ⟨c.entries, (hok c).1 h⟩
  · rintro ⟨es, h⟩
    exact ⟨⟨es⟩, (hok ⟨es⟩).2 h⟩

/-- A comment, blanks of two kinds, an entry and a line with two fields. The entry is read, and the fourth line is at
fault. -/
theorem parse_exact_fourth_line :
    let e := plainEntry "mn1" "key"
    let before := "# mine\r\n \u2003\n" ++ e.toLine ++ "\n"
    let lines := ["# mine".toList, [' ', '\u2003'], e.toChars]
    let line := "mn2 192.0.2.1".toList
    IsLines before.toList lines ∧ parse before = .ok ⟨[e]⟩ ∧ (∀ number, Entry.ofLine number e.toLine = .ok e) ∧
      IsLines (before ++ "mn2 192.0.2.1").toList (lines ++ [line]) ∧
      parse (before ++ "mn2 192.0.2.1") = .error (.line 4 (.fieldCount 2)) := by
  intro e before lines line
  have hbefore : IsLines before.toList lines := by
    have hlines : Text.lines before.toList = lines := by decide +kernel
    exact hlines ▸ Text.isLines_lines before.toList
  have hall : IsLines (before ++ "mn2 192.0.2.1").toList (lines ++ [line]) := by
    have hlines : Text.lines (before ++ "mn2 192.0.2.1").toList = lines ++ [line] := by decide +kernel
    exact hlines ▸ Text.isLines_lines _
  have hholds : Holds lines [e] := by
    have hcounted : counted lines = [e.toChars] := by decide +kernel
    have hfills : e.Fills e.toChars := Entry.ofChars_trim_eq_ok_iff.1 (by decide +kernel)
    exact ⟨hcounted ▸ .cons hfills .nil, by simp⟩
  have hoffends : Offends 4 [e] line (.line 4 (.fieldCount 2)) := by
    have hcount : (pieces line).length = 2 := by decide +kernel
    exact .fault (by decide +kernel) (hcount ▸ .fieldCount (by rw [hcount]; decide))
  obtain ⟨-, hok, hlines, -⟩ := parse_exact hbefore
  obtain ⟨-, -, -, herror⟩ := parse_exact hall
  have hread : parse before = .ok ⟨[e]⟩ := (hok ⟨[e]⟩).2 hholds
  exact ⟨hbefore, hread, hlines _ hread e List.mem_cons_self, hall,
    (herror _).2 ⟨lines, line, [], [e], rfl, hholds, hoffends⟩⟩

end Conf

end AuditChain.Masternode
