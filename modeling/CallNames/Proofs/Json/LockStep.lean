import CallNames.Proofs.Json.Brackets
import CallNames.Proofs.Json.Reading

/-!
# The count of brackets and the reader, in lock step

The reader opens a container at each bracket outside quoted text. The count of brackets knows far
less than the reader, and yet the two stay together on every text, well formed or not.

* `InStep s b`: what the reader knows determines what the count knows. **A step of the reader keeps
  the two in step** (`InStep.step`), with one exception;
* the exception is an escape `\u` that is not followed by four hexadecimal digits. The reader takes
  four bytes before it refuses them, whatever they are, while the count may leave the quoted text
  at one of them. **Such an escape is never survived** (`Spoiled`), and until it is refused nothing
  is opened;
* `nestsDeeper_bounds_reader`: a text that passes the count never makes the reader open more
  containers than the limit, and a well-formed text that fails it does.
-/

namespace CallNames

open BracketCount

/-! ## 1. What the reader knows of the count -/

/-- Whether the next character belongs to a backslash. -/
def Escape.isOpen : Escape → Bool
  | .backslash | .leadBackslash _ => true
  | _ => false

/-- The modes outside quoted text; the letters that a word waits for are no marks. -/
def Mode.Outside : Mode → Prop
  | .text _ _ => False
  | .word rest _ => rest.any isMark = false
  | _ => True

/-- **The count stands where the reader stands.** -/
inductive InStep : Reader → BracketCount → Prop
  | outside (mode : Mode) (h : mode.Outside) (stack : List Frame) :
    InStep ⟨mode, stack⟩ ⟨stack.length, false, false⟩
  | inside (isKey : Bool) (q : Quoted) (stack : List Frame) :
    InStep ⟨.text isKey q, stack⟩ ⟨stack.length, true, q.escape.isOpen⟩

namespace InStep

theorem depth_eq {s : Reader} {b : BracketCount} (h : InStep s b) : b.depth = s.stack.length := by
  cases h <;> rfl

theorem start : InStep {} {} := outside .value trivial []

theorem put (stack : List Frame) (v : Json) :
    InStep (Reader.put stack v) ⟨stack.length, false, false⟩ := by
  cases stack with
  | nil => exact outside (.complete v) trivial []
  | cons f rest =>
    cases f with
    | array items => exact outside .afterItem trivial (.array (v :: items) :: rest)
    | object fields key =>
      exact outside .afterItem trivial (.object (Json.setField key v fields) key :: rest)

end InStep

namespace Reader

/-- **The reader is in an escape that it will refuse.** -/
def Spoiled (s : Reader) : Prop :=
  ∃ isKey q bytes, s.mode = .text isKey q ∧ q.escape = .spoiled bytes

/-! ## 2. What one step can do -/

theorem length_setKey (key : String) (stack : List Frame) :
    (setKey key stack).length = stack.length := by
  cases stack with
  | nil => rfl
  | cons f rest => cases f <;> rfl

/-- What a step inside quoted text can do: it goes on there, or it closes a key or a string. -/
theorem step_text_cases {isKey : Bool} {q : Quoted} {stack : List Frame} {c : Char} {t : Reader}
    (h : step ⟨.text isKey q, stack⟩ c = .ok t) :
    (∃ r, q.next c = .ok (some r) ∧ t = ⟨.text isKey r, stack⟩) ∨
    (q.next c = .ok none ∧
      t = if isKey then ⟨.colon, setKey q.text stack⟩ else put stack (.str q.text)) := by
  cases hq : q.next c with
  | error e =>
    simp only [step, hq] at h
    cases h
  | ok r? =>
    simp only [step, hq] at h
    cases r? with
    | none =>
      refine .inr ⟨rfl, ?_⟩
      cases isKey <;> cases h <;> rfl
    | some r =>
      cases h
      exact .inl ⟨r, rfl, rfl⟩

/-- What a step inside a number can do: the number goes on, or it has ended before the character,
    which is taken behind it. -/
theorem step_numeral_cases {n : Numeral} {stack : List Frame} {c : Char} {t : Reader}
    (h : step ⟨.numeral n, stack⟩ c = .ok t) :
    (∃ m, n.next c = .ok (some m) ∧ t = ⟨.numeral m, stack⟩) ∨
    ∃ x, n.next c = .ok none ∧ n.value = .ok x ∧ (put stack (.num x)).between c = .ok t := by
  cases hn : n.next c with
  | error e =>
    simp only [step, hn] at h
    cases h
  | ok m? =>
    cases m? with
    | none =>
      cases hv : n.value with
      | error e =>
        simp only [step, hn, hv] at h
        cases h
      | ok x =>
        simp only [step, hn, hv] at h
        exact .inr ⟨x, rfl, rfl, h⟩
    | some m =>
      simp only [step, hn] at h
      cases h
      exact .inl ⟨m, rfl, rfl⟩

end Reader

/-! ## 3. What one step keeps -/

namespace Quoted

variable {q r : Quoted} {c : Char}

theorem of_map_some {x : Except TextDefect Quoted} (h : some <$> x = .ok (some r)) : x = .ok r := by
  cases x with
  | error e => cases h
  | ok r' => cases h; rfl

theorem isOpen_of_afterBackslash (h : q.afterBackslash c = .ok r) : r.escape.isOpen = false := by
  unfold afterBackslash at h
  split_ifs at h <;> cases h <;> rfl

theorem isOpen_of_endUnit {lead : Option Nat} {unit : Nat} (h : q.endUnit lead unit = .ok r) :
    r.escape.isOpen = false := by
  unfold endUnit at h
  cases lead with
  | none => split_ifs at h <;> cases h <;> rfl
  | some first => split_ifs at h; cases h; rfl

theorem spoiled_of_spoil {bytes : Nat} (h : q.spoil bytes c = .ok r) :
    ∃ n, r.escape = .spoiled n := by
  unfold spoil at h
  split_ifs at h
  cases h
  exact ⟨_, rfl⟩

/-- A hexadecimal digit leaves the count inside quoted text as it is. -/
theorem count_of_hexDigit? {n : Nat} (h : hexDigit? c = some n) (d : Nat) :
    BracketCount.next ⟨d, true, false⟩ c = ⟨d, true, false⟩ := by
  refine next_quoted ?_ ?_ d
  · rintro rfl
    cases h
  · rintro rfl
    cases h

/-- **A step inside quoted text** keeps the reader in step with the count, or spoils the escape. -/
theorem next_eq_some (h : q.next c = .ok (some r)) (d : Nat) :
    BracketCount.next ⟨d, true, q.escape.isOpen⟩ c = ⟨d, true, r.escape.isOpen⟩ ∨
      ∃ bytes, r.escape = .spoiled bytes := by
  obtain ⟨chars, escape⟩ := q
  cases escape with
  | none =>
    simp only [next] at h
    split_ifs at h with hquote hbackslash hcontrol
    · cases h
    · cases h
      subst hbackslash
      exact .inl rfl
    · cases h
      exact .inl (next_quoted hquote hbackslash d)
  | backslash =>
    have hopen := isOpen_of_afterBackslash (of_map_some h)
    rw [hopen]
    exact .inl rfl
  | unit lead value count =>
    simp only [next] at h
    split at h
    · rename_i n hdigit
      left
      split_ifs at h
      · rw [isOpen_of_endUnit (of_map_some h)]
        exact count_of_hexDigit? hdigit d
      · cases h
        exact count_of_hexDigit? hdigit d
    · exact .inr (spoiled_of_spoil (of_map_some h))
  | spoiled bytes => exact .inr (spoiled_of_spoil (of_map_some h))
  | lead value =>
    simp only [next] at h
    split_ifs at h with hbackslash
    cases h
    subst hbackslash
    exact .inl rfl
  | leadBackslash value =>
    simp only [next] at h
    split_ifs at h
    cases h
    exact .inl rfl

/-- Only a quote outside any escape closes the text. -/
theorem next_eq_none (h : q.next c = .ok none) : q.escape = .none ∧ c = '"' := by
  obtain ⟨chars, escape⟩ := q
  have hsome : ∀ x : Except TextDefect Quoted, some <$> x ≠ .ok none := by
    intro x hx
    cases x <;> cases hx
  cases escape with
  | none =>
    simp only [next] at h
    split_ifs at h with hquote
    · exact ⟨rfl, hquote⟩
    · cases h
    · cases h
  | backslash => exact absurd h (hsome _)
  | unit lead value count =>
    simp only [next] at h
    split at h
    · split_ifs at h
      · exact absurd h (hsome _)
      · cases h
    · exact absurd h (hsome _)
  | spoiled bytes => exact absurd h (hsome _)
  | lead value =>
    simp only [next] at h
    split_ifs at h
    cases h
  | leadBackslash value =>
    simp only [next] at h
    split_ifs at h
    cases h

end Quoted

namespace Numeral

variable {n m : Numeral} {c : Char}

/-- No mark starts a number. -/
theorem not_mark_of_start? (h : start? c = some n) : isMark c = false := by
  cases hc : isMark c with
  | false => rfl
  | true => rcases isMark_cases hc with rfl | rfl | rfl | rfl | rfl <;> cases h

/-- No mark continues a number. -/
theorem not_mark_of_next (h : n.next c = .ok (some m)) : isMark c = false := by
  obtain ⟨part, _⟩ := n
  cases hc : isMark c with
  | false => rfl
  | true => rcases isMark_cases hc with rfl | rfl | rfl | rfl | rfl <;> cases part <;> cases h

end Numeral

namespace InStep

variable {stack : List Frame} {s t : Reader} {b : BracketCount} {c : Char}

/-- A character that is no mark leaves the count outside quoted text as it is. -/
theorem of_not_mark (mode : Mode) (hmode : mode.Outside) (hc : isMark c = false)
    (stack : List Frame) :
    InStep ⟨mode, stack⟩ (BracketCount.next ⟨stack.length, false, false⟩ c) := by
  rw [next_of_not_mark hc]
  exact outside mode hmode stack

theorem word {letters : List Char} (h : letters.any isMark = false) (v : Json)
    (stack : List Frame) : InStep ⟨.word letters v, stack⟩ ⟨stack.length, false, false⟩ :=
  outside (.word letters v) h stack

/-- An opening bracket opens a container and is counted. -/
theorem startValue (h : Reader.startValue stack c = .ok t) :
    InStep t (BracketCount.next ⟨stack.length, false, false⟩ c) := by
  unfold Reader.startValue at h
  split_ifs at h with harray hobject hquote hnull htrue hfalse
  · cases h
    subst harray
    exact outside .firstItem trivial (.array [] :: stack)
  · cases h
    subst hobject
    exact outside .firstKey trivial (.object [] "" :: stack)
  · cases h
    subst hquote
    exact inside false {} stack
  · cases h
    subst hnull
    exact word rfl .null stack
  · cases h
    subst htrue
    exact word rfl (.bool true) stack
  · cases h
    subst hfalse
    exact word rfl (.bool false) stack
  · split at h
    · rename_i n hstart
      cases h
      exact of_not_mark (.numeral n) trivial (Numeral.not_mark_of_start? hstart) stack
    · cases h

/-- A closing bracket closes a container and is counted. -/
theorem close (hc : c = ']' ∨ c = '}') (h : Reader.close stack = .ok t) :
    InStep t (BracketCount.next ⟨stack.length, false, false⟩ c) := by
  cases stack with
  | nil => cases h
  | cons f rest =>
    have hcount : BracketCount.next ⟨(f :: rest).length, false, false⟩ c =
        ⟨rest.length, false, false⟩ := by
      rcases hc with rfl | rfl <;> rfl
    rw [hcount]
    cases f with
    | array items =>
      cases h
      exact put rest (.arr items.reverse)
    | object fields key =>
      cases h
      exact put rest (.obj fields)

/-- A character between two values. -/
theorem punctuate {mode : Mode} (h : Reader.punctuate mode stack c = .ok t) :
    InStep t (BracketCount.next ⟨stack.length, false, false⟩ c) := by
  cases mode with
  | value => exact startValue h
  | firstItem =>
    simp only [Reader.punctuate] at h
    split_ifs at h with hclose
    · exact close (.inl hclose) h
    · exact startValue h
  | firstKey =>
    simp only [Reader.punctuate] at h
    split_ifs at h with hclose hquote
    · exact close (.inr hclose) h
    · cases h
      subst hquote
      exact inside true {} stack
  | nextKey =>
    simp only [Reader.punctuate] at h
    split_ifs at h with hquote
    cases h
    subst hquote
    exact inside true {} stack
  | colon =>
    simp only [Reader.punctuate] at h
    split_ifs at h with hcolon
    cases h
    subst hcolon
    exact outside .value trivial stack
  | afterItem =>
    cases stack with
    | nil => cases h
    | cons f rest =>
      cases f with
      | array items =>
        simp only [Reader.punctuate] at h
        split_ifs at h with hcomma hclose
        · cases h
          subst hcomma
          exact outside .value trivial (.array items :: rest)
        · exact close (.inl hclose) h
      | object fields key =>
        simp only [Reader.punctuate] at h
        split_ifs at h with hcomma hclose
        · cases h
          subst hcomma
          exact outside .nextKey trivial (.object fields key :: rest)
        · exact close (.inr hclose) h
  | complete v => cases h
  | text isKey q => cases h
  | numeral n => cases h
  | word rest v => cases h

theorem between {d : Nat} (hs : InStep s ⟨d, false, false⟩) (h : s.between c = .ok t) :
    InStep t (BracketCount.next ⟨d, false, false⟩ c) := by
  cases hs with
  | outside mode hmode stack =>
    unfold Reader.between at h
    split_ifs at h with hblank
    · cases h
      refine of_not_mark mode hmode ?_ stack
      simp only [isBlank, Bool.or_eq_true, decide_eq_true_eq] at hblank
      rcases hblank with ((rfl | rfl) | rfl) | rfl <;> rfl
    · exact punctuate h

/-- A step inside quoted text. -/
theorem text {isKey : Bool} {q : Quoted} (h : Reader.step ⟨.text isKey q, stack⟩ c = .ok t) :
    InStep t (BracketCount.next ⟨stack.length, true, q.escape.isOpen⟩ c) ∨
      t.Spoiled ∧ t.stack = stack := by
  rcases Reader.step_text_cases h with ⟨r, hq, rfl⟩ | ⟨hq, rfl⟩
  · rcases Quoted.next_eq_some hq stack.length with hcount | ⟨bytes, hspoiled⟩
    · left
      rw [hcount]
      exact inside isKey r stack
    · exact .inr ⟨⟨isKey, r, bytes, rfl, hspoiled⟩, rfl⟩
  · left
    obtain ⟨hescape, rfl⟩ := Quoted.next_eq_none hq
    rw [hescape]
    show InStep _ ⟨stack.length, false, false⟩
    cases isKey with
    | false => exact put stack (.str q.text)
    | true =>
      rw [← Reader.length_setKey q.text stack]
      exact outside .colon trivial (Reader.setKey q.text stack)

/-- A step inside a number, or behind one that has just ended. -/
theorem numeral {n : Numeral} (h : Reader.step ⟨.numeral n, stack⟩ c = .ok t) :
    InStep t (BracketCount.next ⟨stack.length, false, false⟩ c) := by
  rcases Reader.step_numeral_cases h with ⟨m, hn, rfl⟩ | ⟨x, -, -, hbetween⟩
  · exact of_not_mark (.numeral m) trivial (Numeral.not_mark_of_next hn) stack
  · exact between (put stack (.num x)) hbetween

/-- A letter of a word. -/
theorem letter {letters : List Char} {v : Json} (hletters : letters.any isMark = false)
    (h : Reader.step ⟨.word letters v, stack⟩ c = .ok t) :
    InStep t (BracketCount.next ⟨stack.length, false, false⟩ c) := by
  cases letters with
  | nil => cases h
  | cons first rest =>
    rw [List.any_cons, Bool.or_eq_false_iff] at hletters
    simp only [Reader.step] at h
    split_ifs at h with hfirst hend
    · cases h
      rw [hfirst, next_of_not_mark hletters.1]
      exact put stack v
    · cases h
      rw [hfirst, next_of_not_mark hletters.1]
      exact word hletters.2 v stack

/-- **One step of the reader keeps the count in step**, or spoils an escape and opens nothing. -/
theorem step (hs : InStep s b) (h : s.step c = .ok t) :
    InStep t (b.next c) ∨ t.Spoiled ∧ t.stack = s.stack := by
  cases hs with
  | inside isKey q stack => exact text h
  | outside mode hmode stack =>
    left
    cases mode with
    | text isKey q => exact hmode.elim
    | numeral n => exact numeral h
    | word letters v => exact letter hmode h
    | value => exact between (outside _ hmode stack) h
    | firstItem => exact between (outside _ hmode stack) h
    | firstKey => exact between (outside _ hmode stack) h
    | nextKey => exact between (outside _ hmode stack) h
    | colon => exact between (outside _ hmode stack) h
    | afterItem => exact between (outside _ hmode stack) h
    | complete v => exact between (outside _ hmode stack) h

end InStep

namespace Reader

/-- **A spoiled escape stays spoiled** until it is refused, and nothing is opened meanwhile. -/
theorem Spoiled.step {s t : Reader} {c : Char} (hs : s.Spoiled) (h : s.step c = .ok t) :
    t.Spoiled ∧ t.stack = s.stack := by
  obtain ⟨mode, stack⟩ := s
  obtain ⟨isKey, q, bytes, rfl, hq⟩ := hs
  have hnext : q.next c = some <$> q.spoil bytes c := by
    rw [Quoted.next, hq]
  rcases step_text_cases h with ⟨r, hr, rfl⟩ | ⟨hnone, -⟩
  · rw [hnext] at hr
    obtain ⟨n, hn⟩ := Quoted.spoiled_of_spoil (Quoted.of_map_some hr)
    exact ⟨⟨isKey, r, n, rfl, hn⟩, rfl⟩
  · have hescape := (Quoted.next_eq_none hnone).1
    rw [hq] at hescape
    cases hescape

theorem Spoiled.run {s t : Reader} {text : List Char} (hs : s.Spoiled) (h : s.run text = .ok t) :
    t.Spoiled ∧ t.stack = s.stack := by
  induction text generalizing s with
  | nil =>
    cases h
    exact ⟨hs, rfl⟩
  | cons c text ih =>
    obtain ⟨r, hr, hrest⟩ := run_cons_eq_ok h
    obtain ⟨hspoiled, hstack⟩ := hs.step hr
    obtain ⟨ht, hsame⟩ := ih hspoiled hrest
    exact ⟨ht, hsame.trans hstack⟩

/-- No text ends well inside a spoiled escape. -/
theorem Spoiled.finish_ne {s : Reader} (hs : s.Spoiled) (v : Json) : s.finish ≠ .ok v := by
  obtain ⟨mode, stack⟩ := s
  obtain ⟨isKey, q, bytes, rfl, -⟩ := hs
  intro h
  cases h

end Reader

/-! ## 4. Whole texts -/

open Reader

/-- **A run of the reader keeps the count in step**, or ends in a spoiled escape with no more open
    than the count saw before it. -/
theorem InStep.run {s t : Reader} {b : BracketCount} {text : List Char} (hs : InStep s b)
    (h : s.run text = .ok t) :
    InStep t (text.foldl next b) ∨
      t.Spoiled ∧ ∃ p, p <+: text ∧ (p.foldl next b).depth = t.stack.length := by
  induction text generalizing s b with
  | nil =>
    cases h
    exact .inl hs
  | cons c text ih =>
    obtain ⟨r, hr, hrest⟩ := run_cons_eq_ok h
    rcases hs.step hr with hstep | ⟨hspoiled, hstack⟩
    · rcases ih hstep hrest with hend | ⟨ht, p, hp, hdepth⟩
      · exact .inl hend
      · exact .inr ⟨ht, c :: p, List.cons_prefix_cons.mpr ⟨rfl, hp⟩, hdepth⟩
    · obtain ⟨ht, hsame⟩ := hspoiled.run hrest
      refine .inr ⟨ht, [], List.nil_prefix, ?_⟩
      rw [hsame, hstack]
      exact hs.depth_eq

/-- **The states that the reader passes through** on a text: those after some of it, up to its end
    or to the first character that is refused. -/
def Reader.Passes (text : List Char) (s : Reader) : Prop :=
  ∃ p, p <+: text ∧ run {} p = .ok s

/-- What the reader has open, the count has seen open. -/
theorem Reader.Passes.exists_depth_eq {text : List Char} {s : Reader} (h : Passes text s) :
    ∃ p, p <+: text ∧ (p.foldl next {}).depth = s.stack.length := by
  obtain ⟨p, hp, hrun⟩ := h
  rcases InStep.start.run hrun with hend | ⟨-, q, hq, hdepth⟩
  · exact ⟨p, hp, hend.depth_eq⟩
  · exact ⟨q, hq.trans hp, hdepth⟩

/-- On a well-formed text, what the count has seen open is open in the reader. -/
theorem exists_passes_of_read {text p : List Char} {v : Json} (h : Json.read text = .ok v)
    (hp : p <+: text) : ∃ s, Passes text s ∧ (p.foldl next {}).depth = s.stack.length := by
  obtain ⟨t, hend, hfinish⟩ := exists_run_of_read h
  obtain ⟨rest, rfl⟩ := hp
  obtain ⟨s, hs, hrest⟩ := run_append_eq_ok hend
  refine ⟨s, ⟨p, List.prefix_append p rest, hs⟩, ?_⟩
  rcases InStep.start.run hs with hstep | ⟨hspoiled, -⟩
  · exact hstep.depth_eq
  · exact absurd hfinish ((hspoiled.run hrest).1.finish_ne v)

/-- **The count of brackets guards the reader.** Whatever the text, if it passes the count, then at
    no point of reading it are more than `limit` containers open. If the text is well formed and
    fails the count, then at some point more than `limit` containers are open. -/
theorem nestsDeeper_bounds_reader (limit : Nat) (text : List Char) :
    (nestsDeeper limit text = false → ∀ s, Passes text s → s.stack.length ≤ limit) ∧
      ∀ v, Json.read text = .ok v → nestsDeeper limit text = true →
        ∃ s, Passes text s ∧ limit < s.stack.length := by
  constructor
  · intro hpass s hs
    obtain ⟨p, hp, hdepth⟩ := hs.exists_depth_eq
    by_contra hlimit
    have hdeeper : nestsDeeper limit text = true :=
      exceeds_iff.mpr ⟨p, hp, by omega⟩
    rw [hpass] at hdeeper
    cases hdeeper
  · intro v hread hdeeper
    obtain ⟨p, hp, hlt⟩ := exceeds_iff.mp hdeeper
    obtain ⟨s, hs, hdepth⟩ := exists_passes_of_read hread hp
    exact ⟨s, hs, by omega⟩

/-- A text with brackets behind escaped quotes, of which the reader opens two at once. -/
def escapedBrackets : List Char := "[ \"\\u0022[[\\\"[\" , \x7b\x7d]".toList

/-- A text whose spoiled escape hides a quote from the reader but not from the count. -/
def spoiledBrackets : List Char := "[\"\\u0\"[[".toList

theorem escapedBrackets_bounds_reader :
    (nestsDeeper 2 escapedBrackets = false ∧
      ∀ s, Passes escapedBrackets s → s.stack.length ≤ 2) ∧
    (Json.read escapedBrackets = .ok (.arr [.str "\"[[\"[", .obj []]) ∧
      nestsDeeper 1 escapedBrackets = true ∧
      ∃ s, Passes escapedBrackets s ∧ 1 < s.stack.length) ∧
    (nestsDeeper 3 spoiledBrackets = false ∧
      ∀ s, Passes spoiledBrackets s → s.stack.length ≤ 3) := by
  have hread : Json.read escapedBrackets = .ok (.arr [.str "\"[[\"[", .obj []]) := rfl
  have hpass : nestsDeeper 2 escapedBrackets = false := by decide
  have hdeeper : nestsDeeper 1 escapedBrackets = true := by decide
  have hspoiled : nestsDeeper 3 spoiledBrackets = false := by decide
  exact ⟨⟨hpass, (nestsDeeper_bounds_reader 2 escapedBrackets).1 hpass⟩,
    ⟨hread, hdeeper, (nestsDeeper_bounds_reader 1 escapedBrackets).2 _ hread hdeeper⟩,
    ⟨hspoiled, (nestsDeeper_bounds_reader 3 spoiledBrackets).1 hspoiled⟩⟩

end CallNames
