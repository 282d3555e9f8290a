import SnmpAgent.Text.Blank
import SnmpAgent.Proofs.Text.Fields
import Mathlib.Logic.Basic

/-!
# Lines as they are written

The lines of a text are what stands between its line feeds. A reader is given
them without a carriage return at the end, which it need not know of if it looks
at words only.

* `rawLines`: the lines with their carriage returns;
* `lines_induction`: a text is its first line, or more text after that;
* `rawLines_flatMap`: lines that make up a text are the lines of it;
* `map_lines`: what does not depend on carriage returns can be told of either.
-/

namespace SnmpAgent.Text

variable {c : Char} {line text : List Char}

/-- The lines of a text as they are written. Nothing after the last line feed is
    no line. -/
def rawLines : List Char → List (List Char)
  | [] => []
  | c :: text =>
    if c = '\n' then [] :: rawLines text
    else match rawLines text with
      | [] => [[c]]
      | line :: rest => (c :: line) :: rest

/-- A property of texts holds if it holds of single lines, and before a text of
    which it holds another line may be put. -/
theorem lines_induction {P : List Char → Prop} (last : ∀ line, '\n' ∉ line → P line)
    (line : ∀ line text, '\n' ∉ line → P text → P (line ++ '\n' :: text)) (text : List Char) :
    P text := by
  -- Moving along the text, the characters since the last line feed are put aside.
  suffices h : ∀ front, '\n' ∉ front → P (front ++ text) from h [] List.not_mem_nil
  induction text with
  | nil =>
    intro front hfront
    rw [List.append_nil]
    exact last front hfront
  | cons c text ih =>
    intro front hfront
    rcases eq_or_ne c '\n' with rfl | hc
    · exact line front text hfront (ih [] List.not_mem_nil)
    · rw [List.append_cons]
      exact ih (front ++ [c]) (by simp [hfront, hc.symm])

/-! ## Lines of a text -/

theorem rawLines_of_not_mem (h : '\n' ∉ line) (hne : line ≠ []) : rawLines line = [line] := by
  induction line with
  | nil => exact absurd rfl hne
  | cons c cs ih =>
    obtain ⟨hc, hcs⟩ := not_or.1 (fun hmem => h (List.mem_cons.2 hmem))
    rw [rawLines, if_neg (Ne.symm hc)]
    rcases eq_or_ne cs [] with rfl | hcs'
    · rfl
    · rw [ih hcs hcs']

theorem rawLines_append (h : '\n' ∉ line) (text : List Char) :
    rawLines (line ++ '\n' :: text) = line :: rawLines text := by
  induction line with
  | nil => rfl
  | cons c cs ih =>
    obtain ⟨hc, hcs⟩ := not_or.1 (fun hmem => h (List.mem_cons.2 hmem))
    rw [List.cons_append, rawLines, if_neg (Ne.symm hc), ih hcs]

theorem notMem_of_mem_rawLines (h : line ∈ rawLines text) : '\n' ∉ line := by
  induction text using lines_induction with
  | last last hlast =>
    rcases eq_or_ne last [] with rfl | hne
    · exact absurd h List.not_mem_nil
    · rw [rawLines_of_not_mem hlast hne, List.mem_singleton] at h
      exact h ▸ hlast
  | line first text hfirst ih =>
    rw [rawLines_append hfirst, List.mem_cons] at h
    rcases h with rfl | h
    · exact hfirst
    · exact ih h

/-- Lines without line feeds are the lines of the text that they make up. -/
theorem rawLines_flatMap {lines : List (List Char)} (h : ∀ line ∈ lines, '\n' ∉ line) :
    rawLines (lines.flatMap (· ++ ['\n'])) = lines := by
  induction lines with
  | nil => rfl
  | cons line lines ih =>
    obtain ⟨hline, hlines⟩ := List.forall_mem_cons.1 h
    rw [List.flatMap_cons, List.append_assoc, List.singleton_append, rawLines_append hline,
      ih hlines]

theorem lines_of_not_mem (h : '\n' ∉ line) (hne : line ≠ []) : lines line = [line] := by
  rw [lines, split_eq_splitOn, List.splitOn_eq_singleton h, closeLines,
    if_neg (by simpa using hne)]

theorem lines_append (h : '\n' ∉ line) (text : List Char) :
    lines (line ++ '\n' :: text) = dropReturn line :: lines text := by
  obtain ⟨field, fields, hfields⟩ := List.exists_cons_of_ne_nil (split_ne_nil '\n' text)
  rw [split_eq_splitOn] at hfields
  rw [lines, lines, split_eq_splitOn, split_eq_splitOn,
    List.splitOn_append_cons_self_of_not_mem h, hfields]
  rfl

/-- What does not depend on a carriage return at the end is the same for the
    lines as they are read and as they are written. -/
theorem map_lines {α : Type*} {f : List Char → α} (hf : ∀ line, f (dropReturn line) = f line)
    (text : List Char) : (lines text).map f = (rawLines text).map f := by
  induction text using lines_induction with
  | last line hline =>
    rcases eq_or_ne line [] with rfl | hne
    · rfl
    · rw [lines_of_not_mem hline hne, rawLines_of_not_mem hline hne]
  | line line text hline ih =>
    rw [lines_append hline, rawLines_append hline, List.map_cons, List.map_cons, hf, ih]

/-! ## Carriage returns -/

theorem dropReturn_append (line : List Char) : dropReturn (line ++ ['\r']) = line := by
  rw [dropReturn, if_pos (by simp), List.dropLast_concat]

/-- A line ends in a carriage return, or nothing is dropped from it. -/
theorem dropReturn_cases (line : List Char) :
    (∃ short, line = short ++ ['\r']) ∨ dropReturn line = line := by
  rw [dropReturn]
  split_ifs with h
  · exact .inl (List.getLast?_eq_some_iff.1 h)
  · exact .inr rfl

/-- A blank at the end of a text belongs to no word. -/
theorem words_append_of_isBlank (h : isBlank c) (text : List Char) :
    words (text ++ [c]) = words text := by
  rw [words, words, splitWhere_eq_splitOnP, splitWhere_eq_splitOnP,
    List.splitOnP_append_cons _ _ h]
  simp

/-! ## Beginnings -/

theorem stripLead?_eq_some_iff {lead rest : List Char} :
    stripLead? lead text = some rest ↔ text = lead ++ rest := by
  induction lead generalizing text with
  | nil => simp [stripLead?]
  | cons l lead ih =>
    cases text with
    | nil => simp [stripLead?]
    | cons c text =>
      rw [stripLead?]
      split_ifs with hc
      · rw [ih, hc, List.cons_append, List.cons_inj_right]
      · simp [Ne.symm hc]

end SnmpAgent.Text
