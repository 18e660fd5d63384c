import CallNames.Largest
import CallNames.Report.Text
import Mathlib.Data.List.Forall2

/-!
# Summaries as columns

The line of an entry is its count, filled up with spaces on the left, two spaces and its name.

* All lines of a summary have their names in one column, two behind **the longest count**
  (`widest_countWidth`).
* A line can be read back (`readLine?_line`): the count ends at the first character that is no
  digit, and **only two spaces are skipped behind it**, so a name may start with spaces and digits.
* A text is cut at its newlines into the lines of its entries (`splitOn_renderAll`).

So a summary shows its entries in columns and is read back line by line, and two summaries that
are the same text are the same, if no name is empty (`renderAll_reads_back`).
-/

namespace CallNames

namespace SummaryEntry

/-! ## 1. The width of the counts -/

/-- A width that all counts fit into and that one of them fills, if there is one. -/
structure Widest (width : Nat) (es : List SummaryEntry) : Prop where
  fits : ∀ e ∈ es, e.countText.length ≤ width
  filled : es ≠ [] → ∃ e ∈ es, e.countText.length = width

theorem widest_countWidth (es : List SummaryEntry) : Widest (countWidth es) es :=
  ⟨fun _ he => le_foldr_max (f := fun e => e.countText.length) he,
    fun h => exists_foldr_max (f := fun e => e.countText.length) h⟩

/-! ## 2. Lines -/

/-- The entry with its name as it is shown. -/
def shown (e : SummaryEntry) : SummaryEntry := ⟨shownName e.name, e.count⟩

/-- The line of an entry, without the newline at its end. -/
def line (width : Nat) (e : SummaryEntry) : List Char :=
  List.replicate (width - e.countText.length) ' ' ++ e.countText ++
    ' ' :: ' ' :: e.shown.name.toList

theorem toList_render (width : Nat) (e : SummaryEntry) :
    (e.render false width).toList = e.line width ++ ['\n'] := by
  simp [render, line, shown, Style.paint]

/-- Reads a line back: skips spaces, reads digits, and takes what is behind two more spaces. -/
def readLine? (text : List Char) : Option SummaryEntry :=
  let unpadded := text.dropWhile (· == ' ')
  match unpadded.dropWhile Char.isDigit with
  | ' ' :: ' ' :: name =>
    some ⟨String.ofList name, Nat.ofDigitChars 10 (unpadded.takeWhile Char.isDigit) 0⟩
  | _ => none

theorem isDigit_of_mem_countText {e : SummaryEntry} {c : Char} (h : c ∈ e.countText) :
    c.isDigit = true :=
  Nat.isDigit_of_mem_toDigits (by decide) (by decide) h

/-- The padding ends where the count starts. -/
theorem dropWhile_line (width : Nat) (e : SummaryEntry) :
    (e.line width).dropWhile (· == ' ') = e.countText ++ ' ' :: ' ' :: e.shown.name.toList := by
  have hne : e.countText ≠ [] := Nat.toDigits_ne_nil
  obtain ⟨digit, digits, hcount⟩ := List.exists_cons_of_ne_nil hne
  have hdigit : (digit == ' ') = false := by
    have h := isDigit_of_mem_countText (e := e) (c := digit) (by simp [hcount])
    rw [beq_eq_false_iff_ne]
    rintro rfl
    cases h
  rw [line, List.append_assoc, List.dropWhile_append_of_pos (by simp), hcount, List.cons_append,
    List.dropWhile_cons_of_neg (by simp [hdigit])]

/-- **A line is read back as its entry**, whatever the name starts with. -/
theorem readLine?_line (width : Nat) (e : SummaryEntry) :
    readLine? (e.line width) = some e.shown := by
  have hdigits (c : Char) (h : c ∈ e.countText) : c.isDigit = true := isDigit_of_mem_countText h
  have hbehind : (e.countText ++ ' ' :: ' ' :: e.shown.name.toList).dropWhile Char.isDigit =
      ' ' :: ' ' :: e.shown.name.toList := by
    rw [List.dropWhile_append_of_pos hdigits, List.dropWhile_cons_of_neg (by decide)]
  have hcount : (e.countText ++ ' ' :: ' ' :: e.shown.name.toList).takeWhile Char.isDigit =
      e.countText := by
    rw [List.takeWhile_append_of_pos hdigits, List.takeWhile_cons_of_neg (by decide),
      List.append_nil]
  simp only [readLine?, dropWhile_line, hbehind, hcount, String.ofList_toList]
  rw [countText, Nat.ofDigitChars_toDigits (by decide) (by decide)]
  rfl

theorem newline_notMem_line {e : SummaryEntry} (h : '\n' ∉ e.name.toList) (width : Nat) :
    '\n' ∉ e.line width := by
  have hcount : '\n' ∉ e.countText := fun hmem =>
    absurd (isDigit_of_mem_countText hmem) (by decide)
  have hname : '\n' ∉ e.shown.name.toList := by
    rw [shown, shownName]
    split
    · simp [unnamed]
    · exact h
  simp [line, hcount, hname]

/-! ## 3. Texts -/

/-- **A summary has one line for each entry**, each of them ended by a newline. -/
theorem splitOn_renderAll {es : List SummaryEntry} (h : ∀ e ∈ es, '\n' ∉ e.name.toList) :
    (renderAll false es).toList.splitOn '\n' = es.map (line (countWidth es)) ++ [[]] := by
  rw [renderAll]
  generalize countWidth es = width
  induction es with
  | nil => rfl
  | cons e es ih =>
    rw [List.forall_mem_cons] at h
    have hline : ∀ c ∈ e.line width, (c == '\n') = false := by
      intro c hc
      rw [beq_eq_false_iff_ne]
      rintro rfl
      exact newline_notMem_line h.1 width hc
    rw [List.map_cons, String.join_cons, String.toList_append, toList_render, List.append_assoc,
      List.singleton_append, List.splitOn, List.splitOnP_append_cons_of_forall_mem hline _ rfl]
    exact congrArg (e.line width :: ·) (ih h.2)

/-- What a line shows of an entry: the count at the right of a field of the width, the name two
    columns behind the field, and both again if the line is read back. -/
structure Shows (width : Nat) (text : List Char) (e : SummaryEntry) : Prop where
  aligned : ∃ field, text = field ++ ' ' :: ' ' :: (shownName e.name).toList ∧
    field.length = width ∧
    ∃ padding, field = List.replicate padding ' ' ++ Nat.toDigits 10 e.count
  reads : readLine? text = some ⟨shownName e.name, e.count⟩

theorem shows_line {width : Nat} {e : SummaryEntry} (h : e.countText.length ≤ width) :
    Shows width (e.line width) e := by
  refine ⟨⟨_, rfl, ?_, _, rfl⟩, readLine?_line width e⟩
  rw [List.length_append, List.length_replicate]
  omega

theorem shown_eq_self {e : SummaryEntry} (h : e.name ≠ "") : e.shown = e := by
  rw [shown, shownName, if_neg (by simpa using h)]

theorem map_readLine?_renderAll {es : List SummaryEntry}
    (h : ∀ e ∈ es, e.name ≠ "" ∧ '\n' ∉ e.name.toList) :
    ((renderAll false es).toList.splitOn '\n').dropLast.map readLine? = es.map some := by
  rw [splitOn_renderAll fun e he => (h e he).2, List.dropLast_concat, List.map_map]
  refine List.map_congr_left fun e he => ?_
  rw [Function.comp_apply, readLine?_line, shown_eq_self (h e he).1]

/-- **A summary is aligned and can be read back.** Its text is cut at the newlines into one line for
    each entry, in their order; the names stand in one column, two behind the width of the longest
    count; and each line is read back as the count and the shown name of its entry. So two summaries
    without empty names that have the same text are the same. -/
theorem renderAll_reads_back :
    (∀ es : List SummaryEntry, (∀ e ∈ es, '\n' ∉ e.name.toList) →
      ∃ lines width, (renderAll false es).toList.splitOn '\n' = lines ++ [[]] ∧
        Widest width es ∧ List.Forall₂ (Shows width) lines es) ∧
    (∀ es es' : List SummaryEntry,
      (∀ e ∈ es ++ es', e.name ≠ "" ∧ '\n' ∉ e.name.toList) →
      renderAll false es = renderAll false es' → es = es') := by
  refine ⟨fun es h => ?_, fun es es' h heq => ?_⟩
  · have hwidest := widest_countWidth es
    refine ⟨_, _, splitOn_renderAll h, hwidest, ?_⟩
    rw [List.forall₂_map_left_iff, List.forall₂_same]
    exact fun e he => shows_line (hwidest.fits e he)
  · have hes := map_readLine?_renderAll fun e he => h e (List.mem_append_left _ he)
    have hes' := map_readLine?_renderAll fun e he => h e (List.mem_append_right _ he)
    rw [heq] at hes
    exact List.map_injective_iff.mpr (fun _ _ h => Option.some.inj h) (hes.symm.trans hes')

/-- Entries whose names start with spaces and digits or are empty, with counts of several widths. -/
def spacedEntries : List SummaryEntry := [⟨"  12", 7⟩, ⟨"", 1000⟩, ⟨"3  b", 42⟩]

theorem spacedEntries_read_back :
    renderAll false spacedEntries = "   7    12\n1000  <unnamed>\n  42  3  b\n" ∧
    (∃ lines width, (renderAll false spacedEntries).toList.splitOn '\n' = lines ++ [[]] ∧
      Widest width spacedEntries ∧ List.Forall₂ (Shows width) lines spacedEntries) ∧
    renderAll false [⟨"2  a", 1⟩] ≠ renderAll false [⟨"a", 12⟩] := by
  refine ⟨by decide +kernel, renderAll_reads_back.1 _ (by decide +kernel), fun h => ?_⟩
  exact absurd (renderAll_reads_back.2 _ _ (by decide +kernel) h) (by decide)

end SummaryEntry

end CallNames
