import CallNames.Proofs.Json.Readable

/-!
# The texts that are read

The reader against the grammar of JSON texts. **A text is read exactly if it is a document with
representable numbers and paired strings** (`Json.exists_read_iff`): of the grammar's documents,
only those are refused that hold a number too large or a surrogate without its partner.

* `Reader.Remains`: what may follow a value inside open containers, each of which is filled up and
  closed;
* `Reader.Follows`: what may follow in each state up to the end of the text, in the words of the
  grammar. **A step back keeps it** (`Reader.follows_cons`), and so does a whole run
  (`Reader.follows_of_run`);
* `nestsDeeper_iff_of_isReadable`: on a readable document, the count of brackets passes a limit
  exactly if the reader has more containers open at some point.
-/

namespace CallNames

open Json

/-- The modes between two values. -/
def Mode.IsBetween : Mode → Prop
  | .text _ _ | .numeral _ | .word _ _ => False
  | _ => True

namespace Reader

/-! ## 1. What may follow -/

/-- What may come between a part of a container and its end: nothing, or more parts. -/
def More (p : Phrase) (text : List Char) : Prop :=
  text = [] ∨ ∃ comma rest, IsMark ',' comma ∧ Readable (.series p) rest ∧ text = comma ++ rest

/-- **What may follow a value inside open containers**: each of them is filled up and closed. -/
def Remains : List Frame → List Char → Prop
  | [], text => Blank text
  | f :: stack, text =>
    ∃ more closing rest, More f.phrase more ∧ IsMark f.phrase.closing closing ∧
      Remains stack rest ∧ text = more ++ (closing ++ rest)

/-- What may follow where a phrase must come. -/
def Ahead (p : Phrase) (stack : List Frame) (text : List Char) : Prop :=
  ∃ before phrase rest, Blank before ∧ Readable p phrase ∧ Remains stack rest ∧
    text = before ++ (phrase ++ rest)

/-- What may follow where the innermost container ends. -/
def Ends (closing : Char) (stack : List Frame) (text : List Char) : Prop :=
  ∃ before rest, Blank before ∧ Remains stack.tail rest ∧ text = before ++ closing :: rest

/-- What may follow a key. -/
def Keyed (stack : List Frame) (text : List Char) : Prop :=
  ∃ colon value rest, IsMark ':' colon ∧ Readable .value value ∧ Remains stack rest ∧
    text = colon ++ (value ++ rest)

/-- **What may follow in a state of the reader**, up to the end of the text. -/
def Follows (s : Reader) (text : List Char) : Prop :=
  match s.mode with
  | .value => Ahead .value s.stack text
  | .firstItem => Ahead .value s.stack text ∨ Ends ']' s.stack text
  | .firstKey => Ahead .field s.stack text ∨ Ends '}' s.stack text
  | .nextKey => Ahead .field s.stack text
  | .colon => Keyed s.stack text
  | .afterItem => Remains s.stack text
  | .complete _ => Blank text
  | .text isKey q =>
    ∃ content rest r, through? Quoted.next q content = some r ∧ r.escape = .none ∧
      (if isKey then Keyed s.stack rest else Remains s.stack rest) ∧ text = content ++ '"' :: rest
  | .numeral n =>
    ∃ tail rest m x, through? Numeral.next n tail = some m ∧ m.isComplete = true ∧
      m.value = .ok x ∧ Remains s.stack rest ∧ text = tail ++ rest
  | .word letters _ => ∃ rest, Remains s.stack rest ∧ text = letters ++ rest

variable {stack : List Frame} {text : List Char} {c : Char} {t : Reader}

theorem follows_put (stack : List Frame) (v : Json) (text : List Char) :
    Follows (put stack v) text ↔ Remains stack text := by
  cases stack with
  | nil => exact Iff.rfl
  | cons f stack => cases f <;> exact Iff.rfl

theorem keyed_setKey (key : String) (stack : List Frame) (text : List Char) :
    Keyed (setKey key stack) text ↔ Keyed stack text := by
  cases stack with
  | nil => exact Iff.rfl
  | cons f stack => cases f <;> exact Iff.rfl

theorem More.series {p : Phrase} {more : List Char} (hmore : More p more)
    (h : Readable p text) : Readable (.series p) (text ++ more) := by
  rcases hmore with rfl | ⟨comma, rest, hcomma, hrest, rfl⟩
  · rw [List.append_nil]
    exact .single h
  · rw [← List.append_assoc]
    exact .more h hcomma hrest

theorem isMark_cons {mark : Char} (hc : isBlank c = true) (h : IsMark mark text) :
    IsMark mark (c :: text) := by
  obtain ⟨before, behind, hbefore, hbehind, rfl⟩ := h
  exact ⟨c :: before, behind, List.forall_mem_cons.mpr ⟨hc, hbefore⟩, hbehind, rfl⟩

theorem remains_cons (hc : isBlank c = true) (h : Remains stack text) :
    Remains stack (c :: text) := by
  cases stack with
  | nil => exact List.forall_mem_cons.mpr ⟨hc, h⟩
  | cons f stack =>
    obtain ⟨_, closing, rest, rfl | ⟨comma, more, hcomma, hmore, rfl⟩, hclosing, hrest, rfl⟩ := h
    · exact ⟨[], c :: closing, rest, .inl rfl, isMark_cons hc hclosing, hrest, rfl⟩
    · have hmores : More f.phrase (c :: comma ++ more) :=
        .inr ⟨c :: comma, more, isMark_cons hc hcomma, hmore, rfl⟩
      exact ⟨c :: comma ++ more, closing, rest, hmores, hclosing, hrest, rfl⟩

theorem ahead_cons {p : Phrase} (hc : isBlank c = true) (h : Ahead p stack text) :
    Ahead p stack (c :: text) := by
  obtain ⟨before, phrase, rest, hbefore, hphrase, hrest, rfl⟩ := h
  exact ⟨c :: before, phrase, rest, List.forall_mem_cons.mpr ⟨hc, hbefore⟩, hphrase, hrest, rfl⟩

theorem ends_cons {closing : Char} (hc : isBlank c = true) (h : Ends closing stack text) :
    Ends closing stack (c :: text) := by
  obtain ⟨before, rest, hbefore, hrest, rfl⟩ := h
  exact ⟨c :: before, rest, List.forall_mem_cons.mpr ⟨hc, hbefore⟩, hrest, rfl⟩

/-! ## 2. What one step back keeps -/

/-- Behind a comma, a part goes on with the container. -/
theorem remains_comma {f : Frame} (h : Ahead f.phrase (f :: stack) text) :
    Remains (f :: stack) (',' :: text) := by
  obtain ⟨before, phrase, _, hbefore, hphrase, ⟨more, closing, rest, hmore, hclosing, hrest, rfl⟩,
    rfl⟩ := h
  have hcomma : IsMark ',' (',' :: before) := ⟨[], before, blank_nil, hbefore, rfl⟩
  have hmores : More f.phrase (',' :: before ++ (phrase ++ more)) :=
    .inr ⟨_, _, hcomma, hmore.series hphrase, rfl⟩
  refine ⟨_, closing, rest, hmores, hclosing, hrest, ?_⟩
  simp

theorem remains_closing {f : Frame} (h : Remains stack text) :
    Remains (f :: stack) (f.phrase.closing :: text) :=
  ⟨[], [f.phrase.closing], text, .inl rfl, isMark_self _, h, rfl⟩

/-- **An opened container is a value**, whether it has parts or not. -/
theorem ahead_opening {f : Frame} {mark : Char}
    (hempty : ∀ {first last}, IsMark mark first → IsMark f.phrase.closing last →
      Readable .value (first ++ last))
    (hfull : ∀ {first text last}, IsMark mark first → Readable (.series f.phrase) text →
      IsMark f.phrase.closing last → Readable .value (first ++ text ++ last))
    (h : Ahead f.phrase (f :: stack) text ∨ Ends f.phrase.closing (f :: stack) text) :
    Ahead .value stack (mark :: text) := by
  rcases h with ⟨before, phrase, _, hbefore, hphrase,
    ⟨more, closing, rest, hmore, hclosing, hrest, rfl⟩, rfl⟩ | ⟨before, rest, hbefore, hrest, rfl⟩
  · have hopening : IsMark mark (mark :: before) := ⟨[], before, blank_nil, hbefore, rfl⟩
    refine ⟨[], _, rest, blank_nil, hfull hopening (hmore.series hphrase) hclosing, hrest, ?_⟩
    simp
  · have hclosing : IsMark f.phrase.closing (before ++ [f.phrase.closing]) :=
      ⟨before, [], hbefore, blank_nil, rfl⟩
    refine ⟨[], _, rest, blank_nil, hempty (isMark_self mark) hclosing, hrest, ?_⟩
    simp

/-- The first character of a value. -/
theorem ahead_of_startValue (h : startValue stack c = .ok t) (ht : Follows t text) :
    Ahead .value stack (c :: text) := by
  unfold startValue at h
  split_ifs at h with harray hobject hquote hnull htrue hfalse
  · cases h
    subst harray
    exact ahead_opening (f := .array []) .emptyArray .array ht
  · cases h
    subst hobject
    exact ahead_opening (f := .object [] "") .emptyObject .object ht
  · cases h
    subst hquote
    obtain ⟨content, rest, q, hq, hescape, hrest, rfl⟩ := ht
    have hcontent := Quoted.content_iff.mpr ⟨q, hq, hescape⟩
    refine ⟨[], _, rest, blank_nil, .quoted ⟨content, hcontent, rfl⟩, hrest, ?_⟩
    simp
  · cases h
    subst hnull
    obtain ⟨rest, hrest, rfl⟩ := ht
    exact ⟨[], _, rest, blank_nil, .null, hrest, rfl⟩
  · cases h
    subst htrue
    obtain ⟨rest, hrest, rfl⟩ := ht
    exact ⟨[], _, rest, blank_nil, .true, hrest, rfl⟩
  · cases h
    subst hfalse
    obtain ⟨rest, hrest, rfl⟩ := ht
    exact ⟨[], _, rest, blank_nil, .false, hrest, rfl⟩
  · split at h
    · rename_i n hstart
      cases h
      obtain ⟨tail, rest, m, x, hm, hcomplete, hx, hrest, rfl⟩ := ht
      have hnumber : IsRepresentable (c :: tail) := by
        refine isRepresentable_iff.mpr ⟨m, x, ?_, hcomplete, hx⟩
        rw [Numeral.ofText?, hstart]
        exact hm
      exact ⟨[], _, rest, blank_nil, .number hnumber, hrest, rfl⟩
    · cases h

/-- The quote that opens a key. -/
theorem ahead_of_key (ht : Follows ⟨.text true {}, stack⟩ text) :
    Ahead .field stack ('"' :: text) := by
  obtain ⟨content, _, q, hq, hescape, ⟨colon, value, rest, hcolon, hvalue, hrest, rfl⟩, rfl⟩ := ht
  have hcontent := Quoted.content_iff.mpr ⟨q, hq, hescape⟩
  refine ⟨[], _, rest, blank_nil, .field ⟨content, hcontent, rfl⟩ hcolon hvalue, hrest, ?_⟩
  simp

/-- The end of the innermost container. -/
theorem remains_of_close {f : Frame} (h : close (f :: stack) = .ok t) (ht : Follows t text) :
    Remains stack text := by
  cases f with
  | array items =>
    cases h
    exact (follows_put stack _ text).mp ht
  | object fields key =>
    cases h
    exact (follows_put stack _ text).mp ht

theorem ends_of_close {closing : Char} (h : close stack = .ok t) (ht : Follows t text) :
    Ends closing stack (closing :: text) := by
  cases stack with
  | nil => cases h
  | cons f stack => exact ⟨[], text, blank_nil, remains_of_close h ht, rfl⟩

/-- A character between two values. -/
theorem follows_of_punctuate {mode : Mode} (h : punctuate mode stack c = .ok t)
    (ht : Follows t text) : Follows ⟨mode, stack⟩ (c :: text) := by
  cases mode with
  | value => exact ahead_of_startValue h ht
  | firstItem =>
    simp only [punctuate] at h
    split_ifs at h with hclose
    · subst hclose
      exact .inr (ends_of_close h ht)
    · exact .inl (ahead_of_startValue h ht)
  | firstKey =>
    simp only [punctuate] at h
    split_ifs at h with hclose hquote
    · subst hclose
      exact .inr (ends_of_close h ht)
    · cases h
      subst hquote
      exact .inl (ahead_of_key ht)
  | nextKey =>
    simp only [punctuate] at h
    split_ifs at h with hquote
    cases h
    subst hquote
    exact ahead_of_key ht
  | colon =>
    simp only [punctuate] at h
    split_ifs at h with hcolon
    cases h
    subst hcolon
    obtain ⟨before, value, rest, hbefore, hvalue, hrest, rfl⟩ := ht
    exact ⟨':' :: before, value, rest, ⟨[], before, blank_nil, hbefore, rfl⟩, hvalue, hrest, rfl⟩
  | afterItem =>
    cases stack with
    | nil => cases h
    | cons f stack =>
      cases f with
      | array items =>
        simp only [punctuate] at h
        split_ifs at h with hcomma hclose
        · cases h
          subst hcomma
          exact remains_comma (f := .array items) ht
        · subst hclose
          exact remains_closing (f := .array items) (remains_of_close h ht)
      | object fields key =>
        simp only [punctuate] at h
        split_ifs at h with hcomma hclose
        · cases h
          subst hcomma
          exact remains_comma (f := .object fields key) ht
        · subst hclose
          exact remains_closing (f := .object fields key) (remains_of_close h ht)
  | complete v => cases h
  | text isKey q => cases h
  | numeral n => cases h
  | word rest v => cases h

/-- Between two values, blanks are passed over. -/
theorem follows_blank {mode : Mode} (hmode : mode.IsBetween) (hc : isBlank c = true)
    (h : Follows ⟨mode, stack⟩ text) : Follows ⟨mode, stack⟩ (c :: text) := by
  cases mode with
  | value => exact ahead_cons hc h
  | firstItem => exact h.imp (ahead_cons hc) (ends_cons hc)
  | firstKey => exact h.imp (ahead_cons hc) (ends_cons hc)
  | nextKey => exact ahead_cons hc h
  | colon =>
    obtain ⟨colon, value, rest, hcolon, hvalue, hrest, rfl⟩ := h
    exact ⟨c :: colon, value, rest, isMark_cons hc hcolon, hvalue, hrest, rfl⟩
  | afterItem => exact remains_cons hc h
  | complete v => exact List.forall_mem_cons.mpr ⟨hc, h⟩
  | text isKey q => exact hmode.elim
  | numeral n => exact hmode.elim
  | word letters v => exact hmode.elim

theorem follows_of_between {mode : Mode} (hmode : mode.IsBetween)
    (h : between ⟨mode, stack⟩ c = .ok t) (ht : Follows t text) :
    Follows ⟨mode, stack⟩ (c :: text) := by
  unfold between at h
  split_ifs at h with hblank
  · cases h
    exact follows_blank hmode hblank ht
  · exact follows_of_punctuate h ht

theorem isBetween_put (stack : List Frame) (v : Json) : (put stack v).mode.IsBetween := by
  cases stack with
  | nil => trivial
  | cons f stack => cases f <;> trivial

/-- A character inside a string or a key. -/
theorem follows_of_text {isKey : Bool} {q : Quoted} (h : step ⟨.text isKey q, stack⟩ c = .ok t)
    (ht : Follows t text) : Follows ⟨.text isKey q, stack⟩ (c :: text) := by
  rcases step_text_cases h with ⟨r, hr, rfl⟩ | ⟨hnone, rfl⟩
  · obtain ⟨content, rest, k, hk, hescape, hrest, rfl⟩ := ht
    exact ⟨c :: content, rest, k, (through?_cons hr content).trans hk, hescape, hrest, rfl⟩
  · obtain ⟨hescape, rfl⟩ := Quoted.next_eq_none hnone
    refine ⟨[], text, q, rfl, hescape, ?_, rfl⟩
    cases isKey with
    | false => exact (follows_put stack _ text).mp ht
    | true => exact (keyed_setKey _ stack text).mp ht

/-- A character inside a number, or behind one. -/
theorem follows_of_numeral {n : Numeral} (h : step ⟨.numeral n, stack⟩ c = .ok t)
    (ht : Follows t text) : Follows ⟨.numeral n, stack⟩ (c :: text) := by
  rcases step_numeral_cases h with ⟨k, hk, rfl⟩ | ⟨x, hnone, hx, hbetween⟩
  · obtain ⟨tail, rest, m, x, hm, hcomplete, hx, hrest, rfl⟩ := ht
    exact ⟨c :: tail, rest, m, x, (through?_cons hk tail).trans hm, hcomplete, hx, hrest, rfl⟩
  · have hrest := follows_of_between (isBetween_put stack (.num x)) hbetween ht
    exact ⟨[], c :: text, n, x, rfl, Numeral.isComplete_of_next hnone, hx,
      (follows_put stack _ _).mp hrest, rfl⟩

/-- A letter of a word. -/
theorem follows_of_word {letters : List Char} {v : Json}
    (h : step ⟨.word letters v, stack⟩ c = .ok t) (ht : Follows t text) :
    Follows ⟨.word letters v, stack⟩ (c :: text) := by
  cases letters with
  | nil => cases h
  | cons first letters =>
    simp only [step] at h
    split_ifs at h with hfirst hend
    · cases h
      subst hfirst
      rw [List.isEmpty_iff] at hend
      subst hend
      exact ⟨text, (follows_put stack v text).mp ht, rfl⟩
    · cases h
      subst hfirst
      obtain ⟨rest, hrest, rfl⟩ := ht
      exact ⟨rest, hrest, rfl⟩

/-- **One step back**: a character and what may follow behind it may follow before it. -/
theorem follows_cons {s : Reader} (h : s.step c = .ok t) (ht : Follows t text) :
    Follows s (c :: text) := by
  obtain ⟨mode, stack⟩ := s
  cases mode with
  | text isKey q => exact follows_of_text h ht
  | numeral n => exact follows_of_numeral h ht
  | word letters v => exact follows_of_word h ht
  | value => exact follows_of_between trivial h ht
  | firstItem => exact follows_of_between trivial h ht
  | firstKey => exact follows_of_between trivial h ht
  | nextKey => exact follows_of_between trivial h ht
  | colon => exact follows_of_between trivial h ht
  | afterItem => exact follows_of_between trivial h ht
  | complete v => exact follows_of_between trivial h ht

/-- A text may end where the reader has a value for it. -/
theorem follows_nil {s : Reader} {v : Json} (h : s.finish = .ok v) : Follows s [] := by
  obtain ⟨mode, stack⟩ := s
  cases mode with
  | complete v => exact blank_nil
  | numeral n =>
    simp only [finish] at h
    split_ifs at h with hcomplete
    cases hx : n.value with
    | error e =>
      rw [hx] at h
      cases h
    | ok x =>
      rw [hx] at h
      cases stack with
      | nil => exact ⟨[], [], n, x, rfl, hcomplete, hx, blank_nil, rfl⟩
      | cons f stack => cases f <;> cases h
  | _ => cases h

/-- **What a run took may follow where it began.** -/
theorem follows_of_run {s : Reader} {v : Json} (h : s.run text = .ok t) (ht : t.finish = .ok v) :
    Follows s text := by
  induction text generalizing s with
  | nil =>
    cases h
    exact follows_nil ht
  | cons c text ih =>
    obtain ⟨r, hr, hrest⟩ := run_cons_eq_ok h
    exact follows_cons hr (ih hrest)

end Reader

open Reader

/-! ## 3. Whole texts -/

/-- **A text is read exactly if it is a readable document.** -/
theorem Json.exists_read_iff {text : List Char} :
    (∃ v, Json.read text = .ok v) ↔ IsReadable text := by
  refine ⟨?_, exists_read_of_isReadable⟩
  intro h
  obtain ⟨v, hread⟩ := h
  obtain ⟨t, hend, hfinish⟩ := exists_run_of_read hread
  obtain ⟨before, value, rest, hbefore, hvalue, hrest, rfl⟩ := follows_of_run hend hfinish
  exact ⟨before, value, rest, hbefore, hvalue, hrest, (List.append_assoc ..).symm⟩

/-- A surrogate without its partner is grammatical, and it is not read. -/
example : IsDocument "\"\\ud800\"".toList ∧ ¬ IsReadable "\"\\ud800\"".toList := by
  constructor
  · have hcode : IsCharacter ['\\', 'u', 'd', '8', '0', '0'] :=
      .code (by simp [isHex, Char.isDigit])
    have hquoted : IsQuoted "\"\\ud800\"".toList :=
      ⟨[_], List.forall_mem_singleton.mpr hcode, rfl⟩
    exact ⟨[], _, [], blank_nil, .quoted hquoted, blank_nil, rfl⟩
  · intro h
    obtain ⟨v, hv⟩ := Json.exists_read_iff.mpr h
    cases hv

/-- **On a readable document, the count of brackets and the reader agree**: the count passes a limit
    exactly if at some point more containers are open than that. -/
theorem nestsDeeper_iff_of_isReadable {text : List Char} (h : IsReadable text) (limit : Nat) :
    nestsDeeper limit text = true ↔ ∃ s, Passes text s ∧ limit < s.stack.length := by
  obtain ⟨v, hread⟩ := Json.exists_read_iff.mpr h
  constructor
  · intro hdeeper
    obtain ⟨p, hp, hlt⟩ := BracketCount.exceeds_iff.mp hdeeper
    obtain ⟨s, hs, hdepth⟩ := exists_passes_of_read hread hp
    exact ⟨s, hs, hdepth ▸ hlt⟩
  · intro hopen
    obtain ⟨s, hs, hlt⟩ := hopen
    obtain ⟨p, hp, hdepth⟩ := hs.exists_depth_eq
    exact BracketCount.exceeds_iff.mpr ⟨p, hp, hdepth ▸ hlt⟩

end CallNames
