import CallNames.Proofs.Json.Strings

/-!
# Readable documents

The documents of the grammar with representable numbers and paired strings: **every one of them is
read** (`Reader.exists_read_of_isReadable`).

* `Reader.run_mark`: a structural character is read with the blanks around it;
* `Reader.Taken`: where the texts of each phrase take the reader, whatever is open. A value takes it
  to rest behind that value, and one or more parts of a container to rest behind the last of them;
* `Reader.taken_of_readable`: what is derived takes the reader there, by induction on the
  derivation.
-/

namespace CallNames

open Json

namespace Json

/-! ## 1. Readable documents -/

/-- **The phrases that are read**: those with representable numbers and paired strings. -/
abbrev Readable (p : Phrase) (text : List Char) : Prop := Derives IsRepresentable IsPaired p text

/-- **A document that is read.** -/
def IsReadable (text : List Char) : Prop := IsSpaced IsRepresentable IsPaired text

theorem IsReadable.isDocument {text : List Char} (h : IsReadable text) : IsDocument text := by
  obtain ⟨before, value, behind, hbefore, hvalue, hbehind, rfl⟩ := h
  have hderives := hvalue.mono (fun _ h => h.1) (fun _ h => h.isQuoted)
  exact ⟨before, value, behind, hbefore, hderives, hbehind, rfl⟩

/-- What a container of such phrases ends with. -/
def Phrase.closing : Phrase → Char
  | .value => ']'
  | .field | .series _ => '}'

end Json

/-- What a container consists of. -/
def Frame.phrase : Frame → Phrase
  | .array _ => .value
  | .object _ _ => .field

/-- The modes inside a container where one of its parts may come. -/
def Frame.Awaits : Frame → Mode → Prop
  | .array _, mode => mode = .value ∨ mode = .firstItem
  | .object _ _, mode => mode = .nextKey ∨ mode = .firstKey

namespace Reader

/-! ## 2. Marks, numbers and strings -/

/-- A state that passes over blanks. -/
def Stays (s : Reader) : Prop := ∀ c, isBlank c = true → s.step c = .ok s

theorem stays_put (stack : List Frame) (v : Json) : (put stack v).Stays := by
  intro c hc
  rw [step_put]
  exact if_pos hc

/-- **A structural character is read with the blanks around it.** -/
theorem run_mark {s t : Reader} {mark : Char} {text : List Char} (hs : s.Stays)
    (h : s.step mark = .ok t) (ht : t.Stays) (htext : IsMark mark text) : s.run text = .ok t := by
  obtain ⟨before, behind, hbefore, hbehind, rfl⟩ := htext
  rw [run_append (run_blanks hs hbefore), run_cons h, run_blanks ht hbehind]

/-- Behind an item, a structural character is read with the blanks around it. -/
theorem run_mark_of_rests {s t : Reader} {f : Frame} {stack : List Frame} {mark : Char}
    {text : List Char} (hs : s.Rests ⟨.afterItem, f :: stack⟩) (hmark : endsValue mark = true)
    (h : step ⟨.afterItem, f :: stack⟩ mark = .ok t) (ht : t.Stays) (htext : IsMark mark text) :
    s.run text = .ok t := by
  obtain ⟨before, behind, hbefore, hbehind, rfl⟩ := htext
  have hclosing := (run_closing hs hbefore hmark).trans h
  rw [← List.singleton_append, ← List.append_assoc, run_append hclosing, run_blanks ht hbehind]

/-- A machine inside the reader goes on there as it does alone. -/
theorem run_of_through? {σ : Type} {next : σ → Char → Except TextDefect (Option σ)}
    {mode : σ → Mode} {stack : List Frame}
    (hstep : ∀ {s c t}, next s c = .ok (some t) → step ⟨mode s, stack⟩ c = .ok ⟨mode t, stack⟩)
    {s t : σ} {text : List Char} (h : through? next s text = some t) :
    run ⟨mode s, stack⟩ text = .ok ⟨mode t, stack⟩ := by
  induction text generalizing s with
  | nil =>
    cases h
    rfl
  | cons c text ih =>
    obtain ⟨r, hr, hrest⟩ := through?_cons_eq_some h
    rw [run_cons (hstep hr), ih hrest]

/-- A number starts where a value may. -/
theorem step_of_start? {c : Char} {n : Numeral} (h : Numeral.start? c = some n)
    (stack : List Frame) : step ⟨.value, stack⟩ c = .ok ⟨.numeral n, stack⟩ := by
  have hne : ∀ d, Numeral.start? d = none → c ≠ d := by
    rintro d hd rfl
    rw [hd] at h
    cases h
  have hblank : isBlank c = false := by
    simp [isBlank, hne ' ' rfl, hne '\t' rfl, hne '\n' rfl, hne '\r' rfl]
  simp [step, between, hblank, punctuate, startValue, h, hne '[' rfl, hne '{' rfl, hne '"' rfl,
    hne 'n' rfl, hne 't' rfl, hne 'f' rfl]

/-- A representable number is read. -/
theorem reads_of_isRepresentable {text : List Char} (h : IsRepresentable text) :
    ∃ x, Reads text (.num x) := by
  obtain ⟨n, x, hn, hcomplete, hx⟩ := isRepresentable_iff.mp h
  refine ⟨x, fun stack => ⟨⟨.numeral n, stack⟩, ?_, rests_numeral hcomplete hx stack⟩⟩
  cases text with
  | nil => cases hn
  | cons c text =>
    obtain ⟨m, hm, hthrough⟩ := Option.bind_eq_some_iff.mp hn
    rw [run_cons (step_of_start? hm stack)]
    exact run_of_through? (fun h => step_numeral h stack) hthrough

/-- The content of a string is read up to the quote that closes it. -/
theorem run_content {content : List Char} (h : Content content) (isKey : Bool)
    (stack : List Frame) :
    ∃ s, run ⟨.text isKey {}, stack⟩ (content ++ ['"']) =
      .ok (if isKey then ⟨.colon, setKey s stack⟩ else put stack (.str s)) := by
  obtain ⟨q, hq, hescape⟩ := Quoted.content_iff.mp h
  have hclose : q.next '"' = .ok none := by
    simp [Quoted.next, hescape]
  have hstep : ∀ {q c r}, Quoted.next q c = .ok (some r) →
      step ⟨.text isKey q, stack⟩ c = .ok ⟨.text isKey r, stack⟩ := fun h => step_text h stack
  refine ⟨q.text, ?_⟩
  rw [run_append (run_of_through? hstep hq), run_cons (step_text_none hclose isKey stack), run_nil]

/-- A text that takes the reader to rest behind some value, whatever is open. -/
def TakesValue (text : List Char) : Prop :=
  ∀ stack, ∃ s v, run ⟨.value, stack⟩ text = .ok s ∧ s.Rests (put stack v)

theorem takesValue_of_reads {text : List Char} {v : Json} (h : Reads text v) : TakesValue text := by
  intro stack
  obtain ⟨s, hrun, hs⟩ := h stack
  exact ⟨s, v, hrun, hs⟩

theorem takesValue_of_isPaired {text : List Char} (h : IsPaired text) : TakesValue text := by
  obtain ⟨content, hcontent, rfl⟩ := h
  intro stack
  obtain ⟨s, hs⟩ := run_content hcontent false stack
  have hopen : step ⟨.value, stack⟩ '"' = .ok ⟨.text false {}, stack⟩ := rfl
  refine ⟨put stack (.str s), .str s, ?_, rests_put stack _⟩
  rw [List.cons_append, run_cons hopen, hs]
  rfl

/-! ## 3. Phrases -/

/-- A text that takes the reader past one or more parts of the innermost container. -/
def Fills (p : Phrase) (text : List Char) : Prop :=
  ∀ f stack mode, f.phrase = p → f.Awaits mode →
    ∃ s g, run ⟨mode, f :: stack⟩ text = .ok s ∧ g.phrase = p ∧ s.Rests ⟨.afterItem, g :: stack⟩

/-- **Where the texts of a phrase take the reader.** -/
def Taken : Phrase → List Char → Prop
  | .value, text => TakesValue text
  | .field, text => Fills .field text
  | .series p, text => Fills p text

theorem stays_of_awaits {f : Frame} {mode : Mode} (h : f.Awaits mode) (stack : List Frame) :
    Stays ⟨mode, f :: stack⟩ := by
  intro c hc
  cases f with
  | array items => rcases h with rfl | rfl <;> exact if_pos hc
  | object fields key => rcases h with rfl | rfl <;> exact if_pos hc

/-- A single part of a container. -/
theorem Taken.fills {p : Phrase} {text : List Char} (h : Taken p text) : Fills p text := by
  cases p with
  | value =>
    intro f stack mode hf hmode
    cases f with
    | object fields key => cases hf
    | array items =>
      obtain ⟨s, v, hrun, hs⟩ := h (.array items :: stack)
      refine ⟨s, .array (v :: items), ?_, rfl, hs⟩
      rcases hmode with rfl | rfl
      · exact hrun
      · exact run_firstItem hrun hs.moved
  | field => exact h
  | series p =>
    intro f stack mode hf
    cases f <;> cases hf

/-- Behind a part, a comma takes the reader to where the next one may come. -/
theorem run_comma {s : Reader} {f : Frame} {stack : List Frame} {comma : List Char}
    (hs : s.Rests ⟨.afterItem, f :: stack⟩) (hcomma : IsMark ',' comma) :
    ∃ mode, f.Awaits mode ∧ s.run comma = .ok ⟨mode, f :: stack⟩ := by
  cases f with
  | array items =>
    have hawaits : Frame.Awaits (.array items) .value := .inl rfl
    exact ⟨.value, hawaits, run_mark_of_rests hs rfl rfl (stays_of_awaits hawaits stack) hcomma⟩
  | object fields key =>
    have hawaits : Frame.Awaits (.object fields key) .nextKey := .inl rfl
    exact ⟨.nextKey, hawaits, run_mark_of_rests hs rfl rfl (stays_of_awaits hawaits stack) hcomma⟩

/-- Behind a part, the end of the container completes a value. -/
theorem run_close {s : Reader} {f : Frame} {stack : List Frame} {closing : List Char}
    (hs : s.Rests ⟨.afterItem, f :: stack⟩) (hclosing : IsMark f.phrase.closing closing) :
    ∃ v, s.run closing = .ok (put stack v) := by
  cases f with
  | array items => exact ⟨_, run_mark_of_rests hs rfl rfl (stays_put stack _) hclosing⟩
  | object fields key => exact ⟨_, run_mark_of_rests hs rfl rfl (stays_put stack _) hclosing⟩

theorem stays_value (stack : List Frame) : Stays ⟨.value, stack⟩ := fun _ hc => if_pos hc

/-- A container with parts is a value. -/
theorem takesValue_container {f : Frame} {mode : Mode} {mark : Char}
    (hopen : ∀ stack, step ⟨.value, stack⟩ mark = .ok ⟨mode, f :: stack⟩) (hmode : f.Awaits mode)
    {opening text closing : List Char} (hopening : IsMark mark opening)
    (htext : Fills f.phrase text) (hclosing : IsMark f.phrase.closing closing) :
    TakesValue (opening ++ text ++ closing) := by
  intro stack
  have hfirst := run_mark (stays_value stack) (hopen stack) (stays_of_awaits hmode stack) hopening
  obtain ⟨s, g, hrun, hg, hs⟩ := htext f stack mode rfl hmode
  -- the container has grown meanwhile, and still ends as it did
  rw [← hg] at hclosing
  obtain ⟨v, hclose⟩ := run_close hs hclosing
  refine ⟨put stack v, v, ?_, rests_put stack v⟩
  rw [List.append_assoc, run_append hfirst, run_append hrun, hclose]

/-- A container without parts is a value. -/
theorem takesValue_empty {f : Frame} {mode : Mode} {mark : Char} {v : Json}
    (hopen : ∀ stack, step ⟨.value, stack⟩ mark = .ok ⟨mode, f :: stack⟩) (hmode : f.Awaits mode)
    (hclose : ∀ stack, step ⟨mode, f :: stack⟩ f.phrase.closing = .ok (put stack v))
    {opening closing : List Char} (hopening : IsMark mark opening)
    (hclosing : IsMark f.phrase.closing closing) : TakesValue (opening ++ closing) := by
  intro stack
  have hstays := stays_of_awaits hmode stack
  have hfirst := run_mark (stays_value stack) (hopen stack) hstays hopening
  have hlast := run_mark hstays (hclose stack) (stays_put stack v) hclosing
  refine ⟨put stack v, v, ?_, rests_put stack v⟩
  rw [run_append hfirst, hlast]

/-- A key, a colon and a value fill an object. -/
theorem fills_field {key colon text : List Char} (hkey : IsPaired key) (hcolon : IsMark ':' colon)
    (htext : TakesValue text) : Fills .field (key ++ colon ++ text) := by
  obtain ⟨content, hcontent, rfl⟩ := hkey
  intro f stack mode hf hmode
  cases f with
  | array items => cases hf
  | object fields last =>
    obtain ⟨s, hs⟩ := run_content hcontent true (.object fields last :: stack)
    have hquote : step ⟨mode, .object fields last :: stack⟩ '"' =
        .ok ⟨.text true {}, .object fields last :: stack⟩ := by
      rcases hmode with rfl | rfl <;> rfl
    have hstays : Stays ⟨.colon, .object fields s :: stack⟩ := fun _ hc => if_pos hc
    have hvalue := run_mark hstays rfl (stays_value (.object fields s :: stack)) hcolon
    obtain ⟨t, v, hrun, ht⟩ := htext (.object fields s :: stack)
    refine ⟨t, _, ?_, rfl, ht⟩
    rw [List.append_assoc, List.cons_append, List.cons_append, run_cons hquote, run_append hs,
      if_pos rfl]
    exact (run_append hvalue text).trans hrun

/-- **What is derived takes the reader where its phrase says.** -/
theorem taken_of_readable {p : Phrase} {text : List Char} (h : Readable p text) : Taken p text := by
  induction h with
  | null => exact takesValue_of_reads reads_null
  | true => exact takesValue_of_reads (reads_bool true)
  | false => exact takesValue_of_reads (reads_bool false)
  | number hnumber =>
    obtain ⟨x, hx⟩ := reads_of_isRepresentable hnumber
    exact takesValue_of_reads hx
  | quoted hquoted => exact takesValue_of_isPaired hquoted
  | emptyArray hopening hclosing =>
    exact takesValue_empty (f := .array []) (fun _ => rfl) (.inr rfl) (fun _ => rfl) hopening
      hclosing
  | array hopening _ hclosing ih =>
    exact takesValue_container (f := .array []) (fun _ => rfl) (.inr rfl) hopening ih hclosing
  | emptyObject hopening hclosing =>
    exact takesValue_empty (f := .object [] "") (fun _ => rfl) (.inr rfl) (fun _ => rfl) hopening
      hclosing
  | object hopening _ hclosing ih =>
    exact takesValue_container (f := .object [] "") (fun _ => rfl) (.inr rfl) hopening ih hclosing
  | field hkey hcolon _ ih => exact fills_field hkey hcolon ih
  | single _ ih => exact ih.fills
  | more _ hcomma _ ih ihrest =>
    intro f stack mode hf hmode
    obtain ⟨s, g, hrun, hg, hs⟩ := ih.fills f stack mode hf hmode
    obtain ⟨next, hnext, hpast⟩ := run_comma hs hcomma
    obtain ⟨t, k, hrest, hk, ht⟩ := ihrest g stack next hg hnext
    refine ⟨t, k, ?_, hk, ht⟩
    rw [List.append_assoc, run_append hrun, run_append hpast, hrest]

/-! ## 4. Documents -/

/-- Behind the value of a document, blanks are passed over. -/
theorem finish_behind_blanks {s : Reader} {v : Json} {blanks : List Char}
    (hs : s.Rests (put [] v)) (hblanks : Blank blanks) : (s.run blanks).bind finish = .ok v := by
  cases blanks with
  | nil => exact hs.finish
  | cons c blanks =>
    obtain ⟨hc, hrest⟩ := List.forall_mem_cons.mp hblanks
    have hfirst : s.step c = .ok (put [] v) := by
      rw [hs.step c (endsValue_of_isBlank hc)]
      exact stays_put [] v c hc
    rw [run_cons hfirst, run_blanks (stays_put [] v) hrest]
    rfl

/-- **A readable document is read.** -/
theorem exists_read_of_isReadable {text : List Char} (h : IsReadable text) :
    ∃ v, Json.read text = .ok v := by
  obtain ⟨before, value, behind, hbefore, hvalue, hbehind, rfl⟩ := h
  have htaken : TakesValue value := taken_of_readable hvalue
  obtain ⟨s, v, hrun, hs⟩ := htaken []
  refine ⟨v, ?_⟩
  show (run {} (before ++ value ++ behind)).bind finish = .ok v
  rw [List.append_assoc, run_append (run_blanks (stays_value []) hbefore), run_append hrun]
  exact finish_behind_blanks hs hbehind

end Reader

end CallNames
