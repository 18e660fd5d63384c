import CallNames.Proofs.Json.Recognition

/-!
# Indented text

The indented text has one item or field a line, and nothing between the brackets of an empty
container. Its line starts are blanks wherever they stand (`blank_newline`, `exists_layout`), so

* `parse_prettyText`: **it is read back as the value it was written for**, and
* `isDocument_prettyText`: **it is a well-formed document**, as every text that is read,

if the numbers of the value are integers that are read as such and no object has a key twice
(`Json.isPlain`). The first follows the value down, with the level of the indentation left open.
-/

namespace CallNames

namespace Json

/-! ## 1. Layout -/

theorem blank_space : Blank [' '] := List.forall_mem_singleton.mpr rfl

theorem blank_newline (level : Nat) : Blank (newline level) := by
  intro c hc
  rcases List.mem_cons.mp hc with rfl | hspace
  · rfl
  · rw [List.eq_of_mem_replicate hspace]
    rfl

theorem prettyItems_eq_map (level : Nat) (items : List Json) :
    prettyItems level items = items.map (pretty (level + 1)) := by
  induction items with
  | nil => rfl
  | cons v rest ih => rw [prettyItems, ih, List.map_cons]

/-- The text of one field of an object that is opened at `level`. -/
def prettyField (level : Nat) (field : String × Json) : List Char :=
  Quoted.encode field.1 ++ ':' :: ' ' :: pretty (level + 1) field.2

theorem prettyFields_eq_map (level : Nat) (fields : Fields) :
    prettyFields level fields = fields.map (prettyField level) := by
  induction fields with
  | nil => rfl
  | cons f rest ih => rw [prettyFields, ih, List.map_cons, prettyField]

/-- **A container is laid out by blanks only**: before each part, and before its end if it has
    parts. -/
theorem exists_layout (opening closing : Char) (level : Nat) (parts : List (List Char)) :
    ∃ blanks, Blank blanks ∧ (parts = [] → blanks = []) ∧
      layout opening closing level parts =
        opening :: joinComma (parts.map (newline (level + 1) ++ ·)) ++ blanks ++ [closing] := by
  cases parts with
  | nil => exact ⟨[], blank_nil, fun _ => rfl, rfl⟩
  | cons part parts =>
    exact ⟨newline level, blank_newline level, (absurd · (List.cons_ne_nil _ _)), rfl⟩

/-! ## 2. Reading it back -/

/-- The indented text of a plain value takes the reader to rest behind that value. -/
theorem reads_pretty {v : Json} (h : v.isPlain = true) (level : Nat) :
    Reads (v.pretty level) v := by
  induction v using Json.induction generalizing level with
  | null => exact reads_compact h
  | bool b => exact reads_compact h
  | num n => exact reads_compact h
  | str s => exact reads_compact h
  | arr items ih =>
    rw [isPlain, isPlainItems_eq_all, List.all_eq_true] at h
    obtain ⟨blanks, hblanks, hempty, hlayout⟩ :=
      exists_layout '[' ']' level (items.map (pretty (level + 1)))
    have hitems : List.Forall₂ Reads
        ((items.map (pretty (level + 1))).map (newline (level + 1) ++ ·)) items := by
      rw [List.map_map]
      refine List.forall₂_map_left_iff.mpr (List.forall₂_same.mpr fun v hv => ?_)
      exact (ih v hv (h v hv) (level + 1)).behind_blanks (blank_newline (level + 1))
    rw [pretty, prettyItems_eq_map, hlayout]
    exact reads_arr hitems hblanks fun e => hempty (List.map_eq_nil_iff.mp e)
  | obj fields ih =>
    rw [isPlain, isPlainFields_eq_all, Bool.and_eq_true, decide_eq_true_iff, List.all_eq_true] at h
    obtain ⟨blanks, hblanks, hempty, hlayout⟩ :=
      exists_layout '{' '}' level (fields.map (prettyField level))
    have hfields : List.Forall₂ ReadsField
        ((fields.map (prettyField level)).map (newline (level + 1) ++ ·)) fields := by
      rw [List.map_map]
      refine List.forall₂_map_left_iff.mpr (List.forall₂_same.mpr fun f hf => ?_)
      have hvalue : Reads ([' '] ++ f.2.pretty (level + 1)) f.2 :=
        (ih f hf (h.2 f hf) (level + 1)).behind_blanks blank_space
      exact ⟨newline (level + 1), _, blank_newline (level + 1), hvalue, rfl⟩
    rw [pretty, prettyFields_eq_map, hlayout]
    exact reads_obj hfields h.1 hblanks fun e => hempty (List.map_eq_nil_iff.mp e)

/-- **A plain value is read back from its indented text.** -/
theorem parse_prettyText {v : Json} (h : v.isPlain = true) : Json.parse v.prettyText = .ok v := by
  have hread := (reads_pretty h 0).read_eq
  rwa [← String.toList_ofList (l := v.pretty 0)] at hread

/-- **The indented text of a plain value is a well-formed document.** -/
theorem isDocument_prettyText {v : Json} (h : v.isPlain = true) :
    IsDocument v.prettyText.toList := by
  have hread : read v.prettyText.toList = .ok v := parse_prettyText h
  exact (exists_read_iff.mp ⟨v, hread⟩).isDocument

end Json

end CallNames
