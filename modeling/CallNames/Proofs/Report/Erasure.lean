import CallNames.Report.Text
import Mathlib.Data.List.TakeWhile

/-!
# Colour only adds sequences

A sequence is an escape character, a bracket, one digit or more and `m`. Erasing takes all
sequences out of a text, in one pass from its start to its end.

* A text can be erased in parts, if the second part cannot go on with a sequence that the first
  part has begun (`eraseChars_append`).
* **Painting a text adds nothing but sequences** (`eraseChars_paint`), also if the text has
  sequences of its own: none of them can lie across the place where a style is started again.
* A rendering of two parts only colours if both of them do and they are kept apart: by the end of
  the first (`OnlyColours.closed_append`) or by the start of the second (`OnlyColours.append`).

So a report in colour and the same report without it are the same text, once erased, whatever the
names in it are (`erase_renderAll`).
-/

namespace CallNames

namespace Terminal

/-! ## 1. Sequences -/

/-- A sequence: an escape character, a bracket, one digit or more, and `m`. -/
def IsSequence (chars : List Char) : Prop :=
  ∃ digits : List Char, digits ≠ [] ∧ (∀ d ∈ digits, d.isDigit) ∧
    chars = '\x1b' :: '[' :: (digits ++ ['m'])

/-- What is behind the sequence at the start of a text, if there is one. -/
def afterSequence? : List Char → Option (List Char)
  | '\x1b' :: '[' :: digit :: rest =>
    if digit.isDigit then
      match rest.dropWhile Char.isDigit with
      | 'm' :: behind => some behind
      | _ => none
    else none
  | _ => none

theorem afterSequence?_eq_some_iff {chars behind : List Char} :
    afterSequence? chars = some behind ↔ ∃ seq, IsSequence seq ∧ chars = seq ++ behind := by
  constructor
  · intro h
    unfold afterSequence? at h
    split at h
    · next digit rest =>
      split at h
      · next hdigit =>
        split at h
        · next behind' hrest =>
          cases h
          refine ⟨_, ⟨digit :: rest.takeWhile Char.isDigit, by simp, ?_, rfl⟩, ?_⟩
          · intro d hd
            rcases List.mem_cons.mp hd with rfl | hd
            · exact hdigit
            · exact List.mem_takeWhile_imp hd
          · have hsplit := List.takeWhile_append_dropWhile (p := Char.isDigit) (l := rest)
            rw [hrest] at hsplit
            simp [hsplit]
        · cases h
      · cases h
    · cases h
  · rintro ⟨_, ⟨digits, hne, hdigits, rfl⟩, rfl⟩
    obtain ⟨digit, digits, rfl⟩ := List.exists_cons_of_ne_nil hne
    have hrest : (digits ++ 'm' :: behind).dropWhile Char.isDigit = 'm' :: behind := by
      rw [List.dropWhile_append_of_pos fun d hd => hdigits d (List.mem_cons_of_mem _ hd)]
      rfl
    simp [afterSequence?, hdigits, hrest]

theorem afterSequence?_eq_none_iff {chars : List Char} :
    afterSequence? chars = none ↔ ∀ seq behind, IsSequence seq → chars ≠ seq ++ behind := by
  rw [Option.eq_none_iff_forall_ne_some]
  exact ⟨fun h seq behind hseq heq => h behind (afterSequence?_eq_some_iff.mpr ⟨seq, hseq, heq⟩),
    fun h behind hsome => by
      obtain ⟨seq, hseq, heq⟩ := afterSequence?_eq_some_iff.mp hsome
      exact h seq behind hseq heq⟩

theorem IsSequence.ne_nil {seq : List Char} (h : IsSequence seq) : seq ≠ [] := by
  obtain ⟨digits, -, -, rfl⟩ := h
  exact List.cons_ne_nil _ _

/-- Only the first character of a sequence is an escape character. -/
theorem IsSequence.exists_cons {seq : List Char} (h : IsSequence seq) :
    ∃ inner, seq = '\x1b' :: inner ∧ '\x1b' ∉ inner := by
  obtain ⟨digits, -, hdigits, rfl⟩ := h
  refine ⟨_, rfl, ?_⟩
  have hmem : '\x1b' ∉ digits := fun h => absurd (hdigits _ h) (by decide)
  simp [hmem]

theorem IsSequence.of_cons_eq_append {seq rest behind : List Char} {c : Char} (h : IsSequence seq)
    (heq : c :: rest = seq ++ behind) :
    c = '\x1b' ∧ ∃ inner, seq = '\x1b' :: inner ∧ '\x1b' ∉ inner ∧ rest = inner ++ behind := by
  obtain ⟨inner, rfl, hinner⟩ := h.exists_cons
  obtain ⟨hc, hrest⟩ := List.cons.inj heq
  exact ⟨hc, inner, rfl, hinner, hrest⟩

/-! ## 2. Erasing -/

/-- Takes all sequences out of a text, from its start to its end. -/
def eraseChars : List Char → List Char
  | [] => []
  | c :: rest =>
    match _hafter : afterSequence? (c :: rest) with
    | some behind => eraseChars behind
    | none => c :: eraseChars rest
termination_by chars => chars.length
decreasing_by
  · obtain ⟨seq, hseq, heq⟩ := afterSequence?_eq_some_iff.mp _hafter
    have hpos := List.length_pos_iff.mpr hseq.ne_nil
    rw [heq, List.length_append]
    omega
  · simp

/-- A text without its sequences. -/
def erase (text : String) : String := String.ofList (eraseChars text.toList)

@[simp] theorem eraseChars_nil : eraseChars [] = [] := by
  rw [eraseChars]

theorem eraseChars_sequence {seq : List Char} (h : IsSequence seq) (behind : List Char) :
    eraseChars (seq ++ behind) = eraseChars behind := by
  have hafter : afterSequence? (seq ++ behind) = some behind :=
    afterSequence?_eq_some_iff.mpr ⟨seq, h, rfl⟩
  obtain ⟨inner, rfl, -⟩ := h.exists_cons
  rw [List.cons_append] at hafter ⊢
  rw [eraseChars]
  split
  · next behind' h' => rw [hafter] at h'; cases h'; rfl
  · next h' => rw [hafter] at h'; cases h'

theorem eraseChars_cons {c : Char} {rest : List Char} (h : afterSequence? (c :: rest) = none) :
    eraseChars (c :: rest) = c :: eraseChars rest := by
  rw [eraseChars]
  split
  · next behind h' => rw [h] at h'; cases h'
  · rfl

theorem afterSequence?_cons_of_ne {c : Char} (h : c ≠ '\x1b') (rest : List Char) :
    afterSequence? (c :: rest) = none := by
  exact afterSequence?_eq_none_iff.mpr fun seq behind hseq heq => h (hseq.of_cons_eq_append heq).1

/-- A text without escape characters has no sequence to erase, and begins none. -/
theorem eraseChars_append_of_notMem {chars : List Char} (h : '\x1b' ∉ chars) (behind : List Char) :
    eraseChars (chars ++ behind) = chars ++ eraseChars behind := by
  induction chars with
  | nil => rfl
  | cons c rest ih =>
    rw [List.mem_cons, not_or] at h
    rw [List.cons_append, eraseChars_cons (afterSequence?_cons_of_ne (Ne.symm h.1) _), ih h.2,
      List.cons_append]

theorem eraseChars_of_notMem {chars : List Char} (h : '\x1b' ∉ chars) :
    eraseChars chars = chars := by
  simpa using eraseChars_append_of_notMem h []

/-- **A text that cannot go on with a sequence**: its first character stands in no sequence, or only
    at its start. -/
def Separate (chars : List Char) : Prop :=
  ∀ c ∈ chars.head?, c ≠ '[' ∧ c.isDigit = false ∧ c ≠ 'm'

theorem separate_cons {c : Char} (h : c ≠ '[' ∧ c.isDigit = false ∧ c ≠ 'm') (rest : List Char) :
    Separate (c :: rest) := by
  intro d hd
  cases hd
  exact h

/-- What follows a sequence that is begun goes on with it, so it is not separate. -/
theorem IsSequence.not_separate {begun rest : List Char} (h : IsSequence (begun ++ rest))
    (hbegun : begun ≠ []) (hrest : rest ≠ []) (behind : List Char) :
    ¬ Separate (rest ++ behind) := by
  obtain ⟨digits, -, hdigits, heq⟩ := h
  obtain ⟨c, begun, rfl⟩ := List.exists_cons_of_ne_nil hbegun
  obtain ⟨d, rest, rfl⟩ := List.exists_cons_of_ne_nil hrest
  intro hseparate
  obtain ⟨hbracket, hdigit, hm⟩ := hseparate d rfl
  have hmem : d ∈ '[' :: (digits ++ ['m']) := by
    rw [← (List.cons.inj heq).2]
    simp
  simp only [List.mem_cons, List.mem_append, List.not_mem_nil, or_false] at hmem
  rcases hmem with rfl | hmem | rfl
  · exact hbracket rfl
  · exact absurd (hdigits d hmem) (by simp [hdigit])
  · exact hm rfl

/-- A text that starts with no sequence starts with none either, if a separate text follows. -/
theorem afterSequence?_append {front back : List Char} (hfront : front ≠ [])
    (hnone : afterSequence? front = none) (hback : Separate back) :
    afterSequence? (front ++ back) = none := by
  rw [afterSequence?_eq_none_iff] at hnone ⊢
  intro seq behind hseq heq
  -- The sequence would end in the first text, at its end, or behind it.
  rcases List.append_eq_append_iff.mp heq with ⟨across, rfl, rfl⟩ | ⟨inside, h, -⟩
  · by_cases hempty : across = []
    · subst hempty
      exact hnone _ [] hseq (by simp)
    · exact hseq.not_separate hfront hempty behind hback
  · exact hnone seq inside hseq h

/-- **A text is erased in parts**, if its second part cannot go on with a sequence. -/
theorem eraseChars_append (front : List Char) {back : List Char} (hback : Separate back) :
    eraseChars (front ++ back) = eraseChars front ++ eraseChars back := by
  fun_induction eraseChars front with
  | case1 => rfl
  | case2 c rest behind hafter ih =>
    obtain ⟨seq, hseq, heq⟩ := afterSequence?_eq_some_iff.mp hafter
    rw [heq, List.append_assoc, eraseChars_sequence hseq, ih]
  | case3 c rest hnone ih =>
    have hnone' := afterSequence?_append (List.cons_ne_nil c rest) hnone hback
    rw [List.cons_append] at hnone' ⊢
    rw [eraseChars_cons hnone', ih, List.cons_append]

end Terminal

/-! ## 3. Painted texts -/

namespace Style

open Terminal

theorem isSequence_reset : IsSequence reset := ⟨['0'], by simp, by simp, rfl⟩

theorem isSequence_opening (s : Style) : IsSequence s.opening :=
  ⟨Nat.toDigits 10 s.code, Nat.toDigits_ne_nil,
    fun _ h => Nat.isDigit_of_mem_toDigits (by decide) (by decide) h, rfl⟩

theorem reopen_cons_of_ne {c : Char} (h : c ≠ '\x1b') (s : Style) (rest : List Char) :
    s.reopen (c :: rest) = c :: s.reopen rest := by
  rw [reopen]
  rintro rest' rfl
  exact fun _ => h rfl

/-- Characters that are no escape characters are kept where they are. -/
theorem reopen_append {chars : List Char} (h : '\x1b' ∉ chars) (s : Style) (rest : List Char) :
    s.reopen (chars ++ rest) = chars ++ s.reopen rest := by
  induction chars with
  | nil => rfl
  | cons c chars ih =>
    rw [List.mem_cons, not_or] at h
    rw [List.cons_append, reopen_cons_of_ne (Ne.symm h.1), ih h.2, List.cons_append]

/-- Characters that are no escape characters come from the text. -/
theorem exists_of_reopen_eq_append {s : Style} {text chars behind : List Char}
    (h : '\x1b' ∉ chars) (heq : s.reopen text = chars ++ behind) :
    ∃ rest, text = chars ++ rest := by
  induction chars generalizing text with
  | nil => exact ⟨text, rfl⟩
  | cons c chars ih =>
    rw [List.mem_cons, not_or] at h
    rw [List.cons_append] at heq
    unfold reopen at heq
    split at heq
    · exact absurd (List.cons.inj heq).1 h.1
    · obtain ⟨rfl, htail⟩ := List.cons.inj heq
      obtain ⟨rest, rfl⟩ := ih h.2 htail
      exact ⟨rest, rfl⟩
    · cases heq

/-- **Starting a style again adds only sequences.** -/
theorem eraseChars_reopen (s : Style) (text : List Char) :
    eraseChars (s.reopen text) = eraseChars text := by
  fun_induction reopen s text with
  | case1 rest ih =>
    rw [List.append_assoc, eraseChars_sequence isSequence_reset,
      eraseChars_sequence s.isSequence_opening, ih]
    exact (eraseChars_sequence isSequence_reset rest).symm
  | case2 c rest hreset ih =>
    cases hafter : afterSequence? (c :: rest) with
    | some behind =>
      -- Another sequence is kept as it is, and what is behind it was a part of the rest.
      obtain ⟨seq, hseq, heq⟩ := afterSequence?_eq_some_iff.mp hafter
      obtain ⟨rfl, inner, rfl, hinner, rfl⟩ := hseq.of_cons_eq_append heq
      rw [reopen_append hinner, eraseChars_append_of_notMem hinner,
        eraseChars_append_of_notMem hinner] at ih
      rw [reopen_append hinner]
      exact (eraseChars_sequence hseq _).trans
        ((List.append_cancel_left ih).trans (eraseChars_sequence hseq behind).symm)
    | none =>
      have hnone : afterSequence? (c :: s.reopen rest) = none := by
        rw [afterSequence?_eq_none_iff] at hafter ⊢
        intro seq behind hseq heq
        obtain ⟨rfl, inner, rfl, hinner, hrest⟩ := hseq.of_cons_eq_append heq
        obtain ⟨rest', rfl⟩ := exists_of_reopen_eq_append hinner hrest
        exact hafter _ rest' hseq rfl
      rw [eraseChars_cons hnone, eraseChars_cons hafter, ih]
  | case3 => rfl

@[simp] theorem paint_false (s : Style) (text : String) : s.paint false text = text := rfl

/-- **Painting a text adds only sequences.** -/
theorem eraseChars_paint (s : Style) (text : String) :
    eraseChars (s.paint true text).toList = eraseChars text.toList := by
  have hreset : eraseChars reset = [] := by
    simpa using eraseChars_sequence isSequence_reset []
  have hseparate : Separate reset := separate_cons (by decide) _
  rw [paint, if_pos rfl, String.toList_ofList, List.append_assoc,
    eraseChars_sequence s.isSequence_opening, eraseChars_append _ hseparate, eraseChars_reopen,
    hreset, List.append_nil]

end Style

/-! ## 4. Renderings -/

namespace Terminal

/-- A text without escape characters. -/
def Plain (text : String) : Prop := '\x1b' ∉ text.toList

theorem plain_append {front back : String} :
    Plain (front ++ back) ↔ Plain front ∧ Plain back := by
  rw [Plain, String.toList_append, List.mem_append, not_or, Plain, Plain]

theorem plain_join {texts : List String} (h : ∀ text ∈ texts, Plain text) :
    Plain (String.join texts) := by
  rw [Plain, String.toList_join, List.mem_flatMap]
  rintro ⟨text, htext, hmem⟩
  exact h text htext hmem

theorem notMem_toDigits (n : Nat) : '\x1b' ∉ Nat.toDigits 10 n := fun h =>
  absurd (Nat.isDigit_of_mem_toDigits (by decide) (by decide) h) (by decide)

theorem plain_repr (n : Nat) : Plain n.repr := by
  rw [Plain, Nat.toList_repr]
  exact notMem_toDigits n

theorem Plain.erase {text : String} (h : Plain text) : erase text = text := by
  rw [Terminal.erase, eraseChars_of_notMem h, String.ofList_toList]

/-- A text that leaves no sequence begun: what is behind it is erased by itself. -/
def Closed (text : String) : Prop :=
  ∀ behind : String, eraseChars (text ++ behind).toList =
    eraseChars text.toList ++ eraseChars behind.toList

theorem Plain.closed {text : String} (h : Plain text) : Closed text := by
  intro behind
  rw [String.toList_append, eraseChars_append_of_notMem h, eraseChars_of_notMem h]

/-- A text is closed by a plain ending that is separate from it. -/
theorem closed_append_ending (text : String) {ending : String} (hne : ending.toList ≠ [])
    (hseparate : Separate ending.toList) (hplain : Plain ending) : Closed (text ++ ending) := by
  intro behind
  have hseparate' : Separate (ending.toList ++ behind.toList) := by
    obtain ⟨c, rest, heq⟩ := List.exists_cons_of_ne_nil hne
    rw [heq] at hseparate ⊢
    exact hseparate
  rw [String.append_assoc, String.toList_append, String.toList_append, String.toList_append,
    eraseChars_append _ hseparate', eraseChars_append _ hseparate,
    eraseChars_append_of_notMem hplain, eraseChars_of_notMem hplain, List.append_assoc]

theorem closed_line (text : String) : Closed (text ++ "\n") :=
  closed_append_ending text (by simp) (by simp [Separate]) (by simp [Plain])

theorem Closed.append {front back : String} (hfront : Closed front) (hback : Closed back) :
    Closed (front ++ back) := by
  intro behind
  rw [String.append_assoc, hfront, hback, hfront, List.append_assoc]

theorem closed_join {texts : List String} (h : ∀ text ∈ texts, Closed text) :
    Closed (String.join texts) := by
  induction texts with
  | nil => exact Plain.closed (by simp [Plain])
  | cons text texts ih =>
    rw [List.forall_mem_cons] at h
    rw [String.join_cons]
    exact h.1.append (ih h.2)

/-- **A rendering only colours**, if it is the same text with and without colour, once erased. -/
def OnlyColours (render : Bool → String) : Prop :=
  eraseChars (render true).toList = eraseChars (render false).toList

theorem OnlyColours.erase_eq {render : Bool → String} (h : OnlyColours render) :
    erase (render true) = erase (render false) :=
  congrArg String.ofList h

theorem onlyColours_const (text : String) : OnlyColours fun _ => text := rfl

theorem onlyColours_paint (s : Style) (text : String) :
    OnlyColours fun colour => s.paint colour text :=
  s.eraseChars_paint text

theorem OnlyColours.append {front back : Bool → String} (hfront : OnlyColours front)
    (hback : OnlyColours back) (hseparate : ∀ colour, Separate (back colour).toList) :
    OnlyColours fun colour => front colour ++ back colour := by
  simp only [OnlyColours, String.toList_append] at *
  rw [eraseChars_append _ (hseparate true), eraseChars_append _ (hseparate false), hfront, hback]

theorem OnlyColours.closed_append {front back : Bool → String} (hfront : OnlyColours front)
    (hclosed : ∀ colour, Closed (front colour)) (hback : OnlyColours back) :
    OnlyColours fun colour => front colour ++ back colour := by
  rw [OnlyColours] at *
  rw [hclosed true, hclosed false, hfront, hback]

theorem onlyColours_join {α : Type} {render : Bool → α → String} {items : List α}
    (h : ∀ item ∈ items, OnlyColours fun colour => render colour item)
    (hclosed : ∀ item ∈ items, ∀ colour, Closed (render colour item)) :
    OnlyColours fun colour => String.join (items.map (render colour)) := by
  induction items with
  | nil => rfl
  | cons item items ih =>
    rw [List.forall_mem_cons] at h hclosed
    simp only [List.map_cons, String.join_cons]
    exact h.1.closed_append hclosed.1 (ih h.2 hclosed.2)

end Terminal

/-! ## 5. Reports -/

open Terminal

namespace ArgumentReport

/-- The texts of an argument. -/
def texts (r : ArgumentReport) : List String := [r.name, r.typeName]

theorem closed_render (r : ArgumentReport) (number : Nat) (colour : Bool) :
    Closed (r.render colour number) :=
  closed_append_ending _ (by simp) (by simp [Separate]) (by simp [Plain])

theorem onlyColours_render (r : ArgumentReport) (number : Nat) :
    OnlyColours fun colour => r.render colour number := by
  unfold render
  refine OnlyColours.append (OnlyColours.append (onlyColours_const _) ?_ ?_)
    (onlyColours_const _) fun _ => by simp [Separate]
  · split
    · exact onlyColours_paint _ _
    · exact onlyColours_paint _ _
  · -- The part starts with a letter that is in no sequence, or with a sequence of its own.
    intro colour
    cases colour <;> split <;> simp [Style.paint, Style.opening, Separate]

theorem plain_render {r : ArgumentReport} (h : ∀ text ∈ r.texts, Plain text) (number : Nat) :
    Plain (r.render false number) := by
  have hname : Plain (if r.name.isEmpty then r.typeName else r.name) := by
    split
    · exact h _ (by simp [texts])
    · exact h _ (by simp [texts])
  have hflow : Plain (if r.operand then Style.operand.paint false "operand"
      else Style.nonOperand.paint false "not operand") := by
    split
    · simp [Style.paint, Plain]
    · simp [Style.paint, Plain]
  simp only [render, plain_append]
  exact ⟨⟨⟨⟨⟨⟨by simp [Plain], plain_repr number⟩, by simp [Plain]⟩, hname⟩, by simp [Plain]⟩,
    hflow⟩, by simp [Plain]⟩

end ArgumentReport

theorem plain_shownName {name : String} (h : Plain name) : Plain (shownName name) := by
  rw [shownName]
  split
  · simp [Plain, unnamed]
  · exact h

namespace CallReport

/-- The texts of a call and of its arguments. -/
def texts (r : CallReport) : List String :=
  r.fullName :: (r.shortName.toList ++ r.enclosing.toList ++ r.arguments.flatMap (·.texts))

theorem closed_headline (r : CallReport) (colour : Bool) : Closed (r.headline colour) :=
  closed_line _

theorem onlyColours_headline (r : CallReport) : OnlyColours fun colour => r.headline colour := by
  unfold headline
  -- From the left: the place with the name, the mark, the short name, the enclosing function.
  refine OnlyColours.append (OnlyColours.append (OnlyColours.append (OnlyColours.append
    (OnlyColours.closed_append (onlyColours_const _) (fun _ => ?place) (onlyColours_paint _ _))
    (onlyColours_const _) (fun _ => ?mark)) (onlyColours_const _) (fun _ => ?short))
    ?enclosing ?separate) (onlyColours_const _) fun _ => by simp [Separate]
  case place => exact closed_append_ending _ (by simp) (by simp [Separate]) (by simp [Plain])
  case mark => cases r.style <;> simp [styleMark, Separate]
  case short => cases r.shortName <;> simp [Separate]
  case enclosing =>
    cases r.enclosing with
    | none => exact onlyColours_const _
    | some name =>
      exact (onlyColours_const _).closed_append (fun _ => Plain.closed (by simp [Plain]))
        (onlyColours_paint _ _)
  case separate => cases r.enclosing <;> simp [Separate]

theorem plain_headline {r : CallReport} (h : ∀ text ∈ r.texts, Plain text) :
    Plain (r.headline false) := by
  have hname := plain_shownName (h r.fullName (by simp [texts]))
  have hmark : Plain (styleMark r.style) := by cases r.style <;> simp [styleMark, Plain]
  simp only [headline, plain_append]
  refine ⟨⟨⟨⟨⟨⟨⟨⟨⟨by simp [Plain], plain_repr _⟩, by simp [Plain]⟩, plain_repr _⟩,
    by simp [Plain]⟩, hname⟩, hmark⟩, ?short⟩, ?enclosing⟩, by simp [Plain]⟩
  case short =>
    cases hshort : r.shortName with
    | none => simp [Plain]
    | some name => simpa [Plain] using h name (by simp [texts, hshort])
  case enclosing =>
    cases henclosing : r.enclosing with
    | none => simp [Plain]
    | some name => simpa [Plain] using h name (by simp [texts, henclosing])

theorem closed_render (r : CallReport) (colour : Bool) : Closed (r.render colour) := by
  refine (r.closed_headline colour).append (closed_join fun text htext => ?_)
  obtain ⟨argument, -, rfl⟩ := List.mem_map.mp htext
  exact argument.1.closed_render argument.2 colour

theorem onlyColours_render (r : CallReport) : OnlyColours fun colour => r.render colour :=
  r.onlyColours_headline.closed_append r.closed_headline
    (onlyColours_join (fun argument _ => argument.1.onlyColours_render argument.2)
      fun argument _ => argument.1.closed_render argument.2)

theorem plain_render {r : CallReport} (h : ∀ text ∈ r.texts, Plain text) :
    Plain (r.render false) := by
  refine plain_append.mpr ⟨plain_headline h, plain_join fun text htext => ?_⟩
  obtain ⟨argument, hargument, rfl⟩ := List.mem_map.mp htext
  refine ArgumentReport.plain_render (fun text htext => h text ?_) argument.2
  simp only [texts, List.mem_cons, List.mem_append, List.mem_flatMap]
  exact .inr (.inr ⟨argument.1, List.fst_mem_of_mem_zipIdx hargument, htext⟩)

end CallReport

namespace FileReport

/-- The texts of a file and of its calls. -/
def texts (r : FileReport) : List String := r.file :: r.calls.flatMap (·.texts)

theorem plain_empty (r : FileReport) :
    Plain (if r.calls.isEmpty then "  (no calls)\n" else "") := by
  split <;> simp [Plain]

theorem closed_head (r : FileReport) (colour : Bool) :
    Closed (Style.file.paint colour r.file ++ "\n" ++
      if r.calls.isEmpty then "  (no calls)\n" else "") :=
  (closed_line _).append r.plain_empty.closed

theorem closed_render (r : FileReport) (colour : Bool) : Closed (r.render colour) := by
  refine (r.closed_head colour).append (closed_join fun text htext => ?_)
  obtain ⟨call, -, rfl⟩ := List.mem_map.mp htext
  exact call.closed_render colour

theorem onlyColours_render (r : FileReport) : OnlyColours fun colour => r.render colour := by
  have hfile : OnlyColours fun colour => Style.file.paint colour r.file ++ "\n" :=
    (onlyColours_paint _ _).append (onlyColours_const _) fun _ => by simp [Separate]
  have hhead := hfile.closed_append (fun _ => closed_line _)
    (onlyColours_const (if r.calls.isEmpty then "  (no calls)\n" else ""))
  exact hhead.closed_append r.closed_head
    (onlyColours_join (fun call _ => call.onlyColours_render) fun call _ => call.closed_render)

theorem plain_render {r : FileReport} (h : ∀ text ∈ r.texts, Plain text) :
    Plain (r.render false) := by
  have hfile : Plain (Style.file.paint false r.file) := h r.file (by simp [texts])
  refine plain_append.mpr ⟨plain_append.mpr ⟨plain_append.mpr ⟨hfile, by simp [Plain]⟩,
    r.plain_empty⟩, plain_join fun text htext => ?_⟩
  obtain ⟨call, hcall, rfl⟩ := List.mem_map.mp htext
  refine CallReport.plain_render fun text htext => h text ?_
  exact List.mem_cons_of_mem _ (List.mem_flatMap.mpr ⟨call, hcall, htext⟩)

theorem onlyColours_renderAll (rs : List FileReport) :
    OnlyColours fun colour => renderAll colour rs :=
  onlyColours_join (fun r _ => r.onlyColours_render) fun r _ => r.closed_render

theorem plain_renderAll {rs : List FileReport} (h : ∀ text ∈ rs.flatMap texts, Plain text) :
    Plain (renderAll false rs) := by
  refine plain_join fun text htext => ?_
  obtain ⟨r, hr, rfl⟩ := List.mem_map.mp htext
  exact plain_render fun text htext => h text (List.mem_flatMap.mpr ⟨r, hr, htext⟩)

end FileReport

/-! ## 6. Summaries -/

namespace SummaryEntry

theorem plain_countText (e : SummaryEntry) (width : Nat) :
    Plain (String.ofList (List.replicate (width - e.countText.length) ' ' ++ e.countText) ++
      "  ") := by
  have hcount : '\x1b' ∉ e.countText := notMem_toDigits e.count
  simp [Plain, hcount]

theorem closed_render (e : SummaryEntry) (width : Nat) (colour : Bool) :
    Closed (e.render colour width) :=
  closed_line _

theorem onlyColours_render (e : SummaryEntry) (width : Nat) :
    OnlyColours fun colour => e.render colour width :=
  ((onlyColours_const _).closed_append (fun _ => (e.plain_countText width).closed)
    (onlyColours_paint _ _)).append (onlyColours_const _) fun _ => by simp [Separate]

theorem onlyColours_renderAll (es : List SummaryEntry) :
    OnlyColours fun colour => renderAll colour es :=
  onlyColours_join (fun e _ => e.onlyColours_render _) fun e _ => e.closed_render _

theorem plain_renderAll {es : List SummaryEntry} (h : ∀ e ∈ es, Plain e.name) :
    Plain (renderAll false es) := by
  refine plain_join fun text htext => ?_
  obtain ⟨e, he, rfl⟩ := List.mem_map.mp htext
  have hname : Plain (Style.name.paint false (shownName e.name)) := plain_shownName (h e he)
  exact plain_append.mpr ⟨plain_append.mpr ⟨e.plain_countText _, hname⟩, by simp [Plain]⟩

end SummaryEntry

/-! ## 7. Main result -/

/-- **Colour only adds sequences.** A report or a summary in colour is the same text as without
    colour, once all sequences are erased, whatever its names are. If no name has an escape
    character, erasing the coloured text gives the text without colour itself. -/
theorem erase_renderAll :
    (∀ rs : List FileReport,
      erase (FileReport.renderAll true rs) = erase (FileReport.renderAll false rs)) ∧
    (∀ es : List SummaryEntry,
      erase (SummaryEntry.renderAll true es) = erase (SummaryEntry.renderAll false es)) ∧
    (∀ rs : List FileReport, (∀ text ∈ rs.flatMap FileReport.texts, Plain text) →
      erase (FileReport.renderAll true rs) = FileReport.renderAll false rs) ∧
    (∀ es : List SummaryEntry, (∀ e ∈ es, Plain e.name) →
      erase (SummaryEntry.renderAll true es) = SummaryEntry.renderAll false es) := by
  refine ⟨fun rs => (FileReport.onlyColours_renderAll rs).erase_eq,
    fun es => (SummaryEntry.onlyColours_renderAll es).erase_eq, fun rs h => ?_, fun es h => ?_⟩
  · rw [(FileReport.onlyColours_renderAll rs).erase_eq, (FileReport.plain_renderAll h).erase]
  · rw [(SummaryEntry.onlyColours_renderAll es).erase_eq, (SummaryEntry.plain_renderAll h).erase]

/-- A call whose name has an ending sequence inside, and ends as if another one followed. -/
def unfinishedReport : FileReport :=
  ⟨"a.js", [⟨.construct, ⟨0, 9⟩, "f\x1b[0mg\x1b[1", some "g\x1b[1", some "h", []⟩]⟩

theorem unfinishedReport_erase :
    FileReport.renderAll true [unfinishedReport] ≠ FileReport.renderAll false [unfinishedReport] ∧
    erase (FileReport.renderAll true [unfinishedReport]) =
      "a.js\n  0..9  fg\x1b[1 (new) [g\x1b[1] in h\n" ∧
    erase (SummaryEntry.renderAll true [⟨"map", 3⟩]) = "3  map\n" := by
  refine ⟨by decide +kernel, ?_, ?_⟩
  · rw [erase_renderAll.1]
    decide +kernel
  · rw [erase_renderAll.2.2.2 _ (by simp [Plain])]
    decide +kernel

end CallNames
