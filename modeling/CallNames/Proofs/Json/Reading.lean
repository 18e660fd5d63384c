import CallNames.Json.Reader
import CallNames.Proofs.Json.Parts
import Mathlib.Data.List.Forall2
import Mathlib.Tactic.IntervalCases

/-!
# Reading back what was written

The reader takes one character at a time and keeps what is open on its stack; a written value is
read back by following it through its text.

* `Reader.Rests s r`: a number has no end mark, so behind one the reader does not know yet that the
  value is complete. **A state rests at another if it goes on like it from the next character on**,
  as long as that character can only come behind a value;
* `Reads text v`: whatever is open, the text of a value takes the reader to rest behind that value.
  Texts of strings, numbers, arrays and objects are shown to do so one after the other, with blanks
  where a writer may put them: before an item, a key or a value, and before a container's end;
* `read_compact`: **a value is read back from its compact text**, if its numbers are integers that
  are read as such and no object has a key twice (`Json.isPlain`).
-/

namespace CallNames

namespace Reader

/-! ## 1. Runs -/

/-- The state after all characters of a text. -/
def run (s : Reader) (text : List Char) : Except TextDefect Reader := text.foldlM step s

theorem run_nil (s : Reader) : s.run [] = .ok s := rfl

theorem run_cons {s t : Reader} {c : Char} (h : s.step c = .ok t) (text : List Char) :
    s.run (c :: text) = t.run text := by
  rw [run, List.foldlM_cons, h]
  rfl

theorem run_append {s t : Reader} {text : List Char} (h : s.run text = .ok t) (rest : List Char) :
    s.run (text ++ rest) = t.run rest := by
  rw [run] at h
  rw [run, List.foldlM_append, h]
  rfl

theorem run_cons_eq_ok {s t : Reader} {c : Char} {text : List Char}
    (h : s.run (c :: text) = .ok t) : ∃ r, s.step c = .ok r ∧ r.run text = .ok t := by
  cases hr : s.step c with
  | error e =>
    rw [run, List.foldlM_cons, hr] at h
    cases h
  | ok r => exact ⟨r, rfl, (run_cons hr text).symm.trans h⟩

theorem run_append_eq_ok {s t : Reader} {text rest : List Char}
    (h : s.run (text ++ rest) = .ok t) : ∃ r, s.run text = .ok r ∧ r.run rest = .ok t := by
  induction text generalizing s with
  | nil => exact ⟨s, rfl, h⟩
  | cons c text ih =>
    obtain ⟨q, hq, hrest⟩ := run_cons_eq_ok h
    obtain ⟨r, hr, ht⟩ := ih hrest
    exact ⟨r, (run_cons hq text).trans hr, ht⟩

/-- A character that can only stand behind a value. -/
def endsValue (c : Char) : Bool := c = ',' || c = ']' || c = '}' || isBlank c

/-- **A state that goes on like another** from the next character on, if that one ends a value. -/
structure Rests (s r : Reader) : Prop where
  moved : s.mode ≠ .value
  finish : s.finish = r.finish
  step : ∀ c, endsValue c = true → s.step c = r.step c

theorem put_mode_ne (stack : List Frame) (v : Json) : (put stack v).mode ≠ .value := by
  cases stack with
  | nil => exact fun h => Mode.noConfusion h
  | cons f rest => cases f <;> exact fun h => Mode.noConfusion h

theorem rests_put (stack : List Frame) (v : Json) : (put stack v).Rests (put stack v) :=
  ⟨put_mode_ne stack v, rfl, fun _ _ => rfl⟩

/-- Behind a value, the reader stands between values. -/
theorem step_put (stack : List Frame) (v : Json) (c : Char) :
    (put stack v).step c = (put stack v).between c := by
  cases stack with
  | nil => rfl
  | cons f rest => cases f <;> rfl

/-- Where a value may come or an array end, a value is read as anywhere else. -/
theorem run_firstItem {stack : List Frame} {text : List Char} {s : Reader}
    (h : run ⟨.value, stack⟩ text = .ok s) (hs : s.mode ≠ .value) :
    run ⟨.firstItem, stack⟩ text = .ok s := by
  induction text with
  | nil =>
    cases h
    exact absurd rfl hs
  | cons c text ih =>
    by_cases hblank : isBlank c = true
    · have hvalue : step ⟨.value, stack⟩ c = .ok ⟨.value, stack⟩ := if_pos hblank
      have hfirst : step ⟨.firstItem, stack⟩ c = .ok ⟨.firstItem, stack⟩ := if_pos hblank
      rw [run_cons hvalue] at h
      rw [run_cons hfirst]
      exact ih h
    · have hvalue : step ⟨.value, stack⟩ c = startValue stack c := if_neg hblank
      by_cases hc : c = ']'
      · subst hc
        cases h
      · have hfirst : step ⟨.firstItem, stack⟩ c = startValue stack c :=
          (if_neg hblank).trans (if_neg hc)
        rw [run, List.foldlM_cons, hfirst, ← hvalue, ← List.foldlM_cons]
        exact h

end Reader

open Reader

/-- **The text of a value takes the reader to rest behind that value**, whatever is open. -/
def Reads (text : List Char) (v : Json) : Prop :=
  ∀ stack, ∃ s, run ⟨.value, stack⟩ text = .ok s ∧ s.Rests (put stack v)

/-- What takes the reader to rest behind a value is read as that value. -/
theorem Reads.read_eq {text : List Char} {v : Json} (h : Reads text v) :
    Json.read text = .ok v := by
  obtain ⟨s, hrun, hs⟩ := h []
  have hread : Json.read text = (run ⟨.value, []⟩ text).bind finish := rfl
  rw [hread, hrun]
  exact hs.finish

/-- A text that is read takes the reader to a state with a value. -/
theorem exists_run_of_read {text : List Char} {v : Json} (h : Json.read text = .ok v) :
    ∃ s, run {} text = .ok s ∧ s.finish = .ok v := by
  have hread : Json.read text = (run {} text).bind finish := rfl
  cases hrun : run {} text with
  | error e =>
    rw [hread, hrun] at h
    cases h
  | ok s =>
    rw [hread, hrun] at h
    exact ⟨s, rfl, h⟩

/-! ## 2. Strings -/

theorem step_text {isKey : Bool} {q q' : Quoted} {c : Char} (h : q.next c = .ok (some q'))
    (stack : List Frame) : step ⟨.text isKey q, stack⟩ c = .ok ⟨.text isKey q', stack⟩ := by
  simp only [step, h]
  rfl

/-- The quote that closes a key or a string. -/
theorem step_text_none {q : Quoted} {c : Char} (h : q.next c = .ok none) (isKey : Bool)
    (stack : List Frame) :
    step ⟨.text isKey q, stack⟩ c =
      .ok (if isKey then ⟨.colon, setKey q.text stack⟩ else put stack (.str q.text)) := by
  simp only [step, h]
  cases isKey <;> rfl

theorem hexDigit?_hexChar : ∀ n < 16, hexDigit? (hexChar n) = some n := by decide

/-- The letter of a control character stands for it. -/
theorem afterBackslash_of_controlLetter? {c letter : Char} (h : controlLetter? c = some letter)
    (q : Quoted) : q.afterBackslash letter = .ok (q.push c) := by
  unfold controlLetter? at h
  split_ifs at h <;> cases h <;> subst_vars <;> rfl

/-- **An encoded character is read as itself.** -/
theorem run_encodeChar (isKey : Bool) (chars : List Char) (stack : List Frame) (c : Char) :
    run ⟨.text isKey ⟨chars, .none⟩, stack⟩ (Quoted.encodeChar c) =
      .ok ⟨.text isKey ⟨c :: chars, .none⟩, stack⟩ := by
  have hbackslash : step ⟨.text isKey ⟨chars, .none⟩, stack⟩ '\\' =
      .ok ⟨.text isKey ⟨chars, .backslash⟩, stack⟩ := rfl
  unfold Quoted.encodeChar
  split
  · subst_vars
    rfl
  · rename_i hquote
    split
    · subst_vars
      rfl
    · rename_i hslash
      split
      · rename_i letter hletter
        have hnext : Quoted.next ⟨chars, .backslash⟩ letter = .ok (some ⟨c :: chars, .none⟩) := by
          show some <$> Quoted.afterBackslash ⟨chars, .backslash⟩ letter = _
          rw [afterBackslash_of_controlLetter? hletter]
          rfl
        rw [run_cons hbackslash, run_cons (step_text hnext stack), run_nil]
      · split
        · rename_i hcontrol
          have hhigh := hexDigit?_hexChar (c.toNat / 16) (by omega)
          have hlow := hexDigit?_hexChar (c.toNat % 16) (by omega)
          have hsum : 16 * (c.toNat / 16) + c.toNat % 16 = c.toNat := by omega
          have hthird : Quoted.next ⟨chars, .unit .none 0 2⟩ (hexChar (c.toNat / 16)) =
              .ok (some ⟨chars, .unit .none (c.toNat / 16) 3⟩) := by
            simp only [Quoted.next, hhigh, Nat.mul_zero, Nat.zero_add]
            rfl
          have hfourth : Quoted.next ⟨chars, .unit .none (c.toNat / 16) 3⟩ (hexChar (c.toNat % 16)) =
              .ok (some ⟨c :: chars, .none⟩) := by
            have htrail : Quoted.isTrail c.toNat = false := by
              simp [Quoted.isTrail]
              omega
            have hlead : Quoted.isLead c.toNat = false := by
              simp [Quoted.isLead]
              omega
            simp [Quoted.next, hlow, hsum, Quoted.endUnit, htrail, hlead, Quoted.push]
          show run ⟨.text isKey ⟨chars, .unit .none 0 2⟩, stack⟩ _ = _
          rw [run_cons (step_text hthird stack), run_cons (step_text hfourth stack), run_nil]
        · rename_i hcontrol
          have hnext : Quoted.next ⟨chars, .none⟩ c = .ok (some ⟨c :: chars, .none⟩) := by
            simp [Quoted.next, hquote, hslash, hcontrol, Quoted.push]
          rw [run_cons (step_text hnext stack), run_nil]

theorem run_encodeChars (isKey : Bool) (chars cs : List Char) (stack : List Frame) :
    run ⟨.text isKey ⟨chars, .none⟩, stack⟩ (cs.flatMap Quoted.encodeChar) =
      .ok ⟨.text isKey ⟨cs.reverse ++ chars, .none⟩, stack⟩ := by
  induction cs generalizing chars with
  | nil => rfl
  | cons c cs ih =>
    rw [List.flatMap_cons, run_append (run_encodeChar isKey chars stack c), ih, List.reverse_cons,
      List.append_assoc]
    rfl

/-- The text read between quotes. -/
theorem run_quoted (isKey : Bool) (s : String) (stack : List Frame) :
    run ⟨.text isKey {}, stack⟩ (s.toList.flatMap Quoted.encodeChar ++ ['"']) =
      .ok (if isKey then ⟨.colon, setKey s stack⟩ else put stack (.str s)) := by
  have htext : Quoted.text ⟨s.toList.reverse ++ [], .none⟩ = s := by
    simp [Quoted.text]
  have hclose := step_text_none (q := ⟨s.toList.reverse ++ [], .none⟩) (c := '"') rfl isKey stack
  rw [htext] at hclose
  rw [run_append (run_encodeChars isKey [] s.toList stack), run_cons hclose, run_nil]

theorem reads_str (s : String) : Reads (Quoted.encode s) (.str s) := by
  intro stack
  have hopen : step ⟨.value, stack⟩ '"' = .ok ⟨.text false {}, stack⟩ := rfl
  refine ⟨put stack (.str s), ?_, rests_put stack _⟩
  rw [Quoted.encode, List.cons_append, run_cons hopen, run_quoted]
  rfl

/-! ## 3. Numbers and words -/

namespace Numeral

/-- The numeral after the digits of a natural number. -/
def whole (negative : Bool) (n : Nat) : Numeral :=
  { part := if n = 0 then .leadingZero else .whole, negative := negative, digits := n }

theorem whole_isComplete (negative : Bool) (n : Nat) : (whole negative n).isComplete = true := by
  cases n <;> rfl

theorem digit?_digitChar : ∀ d < 10, digit? (Nat.digitChar d) = some d := by decide

/-- One more digit, as long as all of them are kept. -/
theorem whole_next {n d : Nat} (hn : 0 < n) (hbound : n < 2 ^ 64) (hd : d < 10) (negative : Bool) :
    (whole negative n).next (Nat.digitChar d) = .ok (some (whole negative (10 * n + d))) := by
  have hkept : n < digitBound := Nat.lt_of_lt_of_le hbound (by decide +kernel)
  have hpart : (whole negative n).part = .whole := if_neg (Nat.ne_of_gt hn)
  have hpush : (whole negative n).push d false = whole negative (10 * n + d) := by
    simp [push, whole, hkept, Nat.ne_of_gt hn]
  simp only [next, hpart, digit?_digitChar d hd, hpush]

/-- What ends a value ends the number in it. -/
theorem next_of_endsValue {n : Numeral} (hn : n.isComplete = true) {c : Char}
    (h : endsValue c = true) : n.next c = .ok none := by
  obtain ⟨part, _⟩ := n
  simp only [endsValue, isBlank, Bool.or_eq_true, decide_eq_true_eq] at h
  rcases h with ((rfl | rfl) | rfl) | ((rfl | rfl) | rfl) | rfl <;> cases part <;> cases hn <;> rfl

theorem whole_value {n : Nat} (h : n < 2 ^ 64) : (whole false n).value = .ok (.int n) := by
  have hint : (whole false n).int? = some (n : Int) := if_pos h
  simp only [value, hint]

theorem whole_value_neg {n : Nat} (hpos : 0 < n) (h : n ≤ 2 ^ 63) :
    (whole true n).value = .ok (.int (-n)) := by
  have hint : (whole true n).int? = some (-(n : Int)) := by
    show (if 0 < n ∧ n ≤ 0x8000000000000000 then some (-(n : Int)) else none) = _
    exact if_pos ⟨hpos, h⟩
  simp only [value, hint]

end Numeral

open Numeral

theorem step_numeral {n m : Numeral} {c : Char} (h : n.next c = .ok (some m))
    (stack : List Frame) : step ⟨.numeral n, stack⟩ c = .ok ⟨.numeral m, stack⟩ := by
  simp only [step, h]
  rfl

/-- **Behind a complete number, the reader is at rest.** -/
theorem rests_numeral {n : Numeral} {x : Number} (hn : n.isComplete = true) (h : n.value = .ok x)
    (stack : List Frame) : Rests ⟨.numeral n, stack⟩ (put stack (.num x)) where
  moved := fun h => Mode.noConfusion h
  finish := by
    cases stack with
    | nil => simp [finish, hn, h, put, bind, Except.bind]
    | cons f rest => cases f <;> simp [finish, hn, h, put, bind, Except.bind]
  step := by
    intro c hc
    rw [step_put]
    simp only [step, next_of_endsValue hn hc, h]
    rfl

/-- **The digits of a number are read as that number**, from any state that takes a first digit. -/
theorem run_natText {s : Reader} {negative : Bool} {stack : List Frame}
    (hs : ∀ d < 10, s.step (Nat.digitChar d) = .ok ⟨.numeral (whole negative d), stack⟩)
    {n : Nat} (hn : n < 2 ^ 64) :
    s.run (natText n) = .ok ⟨.numeral (whole negative n), stack⟩ := by
  -- the last digit comes off the end, and is read after the others
  induction n using Nat.strongRecOn with
  | ind n ih =>
    unfold natText at ih ⊢
    by_cases hsmall : n < 10
    · rw [Nat.toDigits_of_lt_base hsmall, run_cons (hs n hsmall), run_nil]
    · have hhigh := ih (n / 10) (by omega) (by omega)
      have hlow : n % 10 < 10 := Nat.mod_lt n (by decide)
      have hnext := whole_next (n := n / 10) (by omega) (by omega) hlow negative
      have hstep := step_numeral hnext stack
      rw [Nat.div_add_mod] at hstep
      rw [Nat.toDigits_of_base_le (by decide) (Nat.le_of_not_lt hsmall), run_append hhigh,
        run_cons hstep, run_nil]

/-- An integer is read back if it lies between `-2 ^ 63` and `2 ^ 64 - 1`. -/
theorem reads_int {n : Int} (hlow : -2 ^ 63 ≤ n) (hhigh : n < 2 ^ 64) :
    Reads (intText n) (.num (.int n)) := by
  intro stack
  by_cases hneg : n < 0
  · have hsign : step ⟨.value, stack⟩ '-' =
        .ok ⟨.numeral { part := .sign, negative := true }, stack⟩ := rfl
    have hdigit : ∀ d < 10, step ⟨.numeral { part := .sign, negative := true }, stack⟩
        (Nat.digitChar d) = .ok ⟨.numeral (whole true d), stack⟩ := by
      intro d hd
      interval_cases d <;> rfl
    have hvalue : (whole true n.natAbs).value = .ok (.int n) := by
      have hint : -(n.natAbs : Int) = n := by omega
      rw [whole_value_neg (by omega) (by omega), hint]
    refine ⟨_, ?_, rests_numeral (whole_isComplete _ _) hvalue stack⟩
    rw [intText, if_pos hneg, run_cons hsign, run_natText hdigit (by omega)]
  · have hdigit : ∀ d < 10, step ⟨.value, stack⟩ (Nat.digitChar d) =
        .ok ⟨.numeral (whole false d), stack⟩ := by
      intro d hd
      interval_cases d <;> rfl
    have hvalue : (whole false n.natAbs).value = .ok (.int n) := by
      have hint : (n.natAbs : Int) = n := by omega
      rw [whole_value (by omega), hint]
    refine ⟨_, ?_, rests_numeral (whole_isComplete _ _) hvalue stack⟩
    rw [intText, if_neg hneg, run_natText hdigit (by omega)]

theorem reads_null : Reads (Json.compact .null) .null :=
  fun stack => ⟨put stack .null, rfl, rests_put stack _⟩

theorem reads_bool (b : Bool) : Reads (Json.compact (.bool b)) (.bool b) := by
  intro stack
  cases b with
  | false => exact ⟨put stack (.bool false), rfl, rests_put stack _⟩
  | true => exact ⟨put stack (.bool true), rfl, rests_put stack _⟩

/-! ## 4. Blanks -/

/-- A text that consists of blanks. -/
def Blank (text : List Char) : Prop := ∀ c ∈ text, isBlank c = true

theorem blank_nil : Blank [] := List.forall_mem_nil _

theorem endsValue_of_isBlank {c : Char} (h : isBlank c = true) : endsValue c = true := by
  rw [endsValue, h, Bool.or_true]

/-- A state that stays as it is at a blank stays as it is at any number of them. -/
theorem run_blanks {s : Reader} (hs : ∀ c, isBlank c = true → s.step c = .ok s) {blanks : List Char}
    (h : Blank blanks) : s.run blanks = .ok s := by
  induction blanks with
  | nil => rfl
  | cons c blanks ih =>
    obtain ⟨hc, hrest⟩ := List.forall_mem_cons.mp h
    rw [run_cons (hs c hc), ih hrest]

/-- Where a value must come, blanks are passed over. -/
theorem Reads.behind_blanks {text blanks : List Char} {v : Json} (h : Reads text v)
    (hblanks : Blank blanks) : Reads (blanks ++ text) v := by
  intro stack
  have hstay : ∀ c, isBlank c = true → step ⟨.value, stack⟩ c = .ok ⟨.value, stack⟩ :=
    fun c hc => if_pos hc
  have hskip := run_blanks hstay hblanks
  rw [run_append hskip]
  exact h stack

/-- Behind a value inside a container, blanks are passed over up to what closes the container. -/
theorem run_closing {s : Reader} {f : Frame} {stack : List Frame} {blanks : List Char}
    {closing : Char} (hs : s.Rests ⟨.afterItem, f :: stack⟩) (hblanks : Blank blanks)
    (hclosing : endsValue closing = true) :
    s.run (blanks ++ [closing]) = step ⟨.afterItem, f :: stack⟩ closing := by
  have hlast : ∀ r : Reader, r.run [closing] = r.step closing := by
    intro r
    rw [run, List.foldlM_cons]
    cases r.step closing <;> rfl
  cases blanks with
  | nil => rw [List.nil_append, hlast, hs.step closing hclosing]
  | cons c blanks =>
    -- the first blank leaves the number, if there is one, and the others change nothing
    obtain ⟨hc, hrest⟩ := List.forall_mem_cons.mp hblanks
    have hfirst : s.step c = .ok ⟨.afterItem, f :: stack⟩ := by
      rw [hs.step c (endsValue_of_isBlank hc)]
      exact if_pos hc
    have hstay : ∀ c, isBlank c = true →
        step ⟨.afterItem, f :: stack⟩ c = .ok ⟨.afterItem, f :: stack⟩ := fun c hc => if_pos hc
    have hskip := run_blanks hstay hrest
    rw [List.cons_append, run_cons hfirst, run_append hskip, hlast]

/-! ## 5. Containers -/

/-- Each item is read from behind its comma. -/
theorem run_items {texts : List (List Char)} {items : List Json}
    (h : List.Forall₂ Reads texts items) {s : Reader} {done : List Json} {stack : List Frame}
    (hs : s.Rests ⟨.afterItem, .array done :: stack⟩) :
    ∃ t, s.run (texts.flatMap (',' :: ·)) = .ok t ∧
      t.Rests ⟨.afterItem, .array (items.reverse ++ done) :: stack⟩ := by
  induction h generalizing s done with
  | nil => exact ⟨s, rfl, hs⟩
  | @cons text v texts items hv _ ih =>
    have hcomma : s.step ',' = .ok ⟨.value, .array done :: stack⟩ := hs.step ',' rfl
    obtain ⟨r, hr, hrest⟩ := hv (.array done :: stack)
    obtain ⟨t, ht, hend⟩ := ih hrest
    refine ⟨t, ?_, ?_⟩
    · rw [List.flatMap_cons, List.cons_append, run_cons hcomma, run_append hr, ht]
    · rw [List.reverse_cons, List.append_assoc]
      exact hend

/-- **An array is read from the texts of its items**, with any blanks before its end. -/
theorem reads_arr {texts : List (List Char)} {items : List Json} {blanks : List Char}
    (h : List.Forall₂ Reads texts items) (hblanks : Blank blanks)
    (hempty : texts = [] → blanks = []) :
    Reads ('[' :: Json.joinComma texts ++ blanks ++ [']']) (.arr items) := by
  intro stack
  have hopen : step ⟨.value, stack⟩ '[' = .ok ⟨.firstItem, .array [] :: stack⟩ := rfl
  refine ⟨put stack (.arr items), ?_, rests_put stack _⟩
  rw [List.cons_append, List.cons_append, run_cons hopen]
  cases h with
  | nil =>
    rw [hempty rfl]
    rfl
  | @cons text v texts items hv hrest =>
    obtain ⟨r, hr, hrests⟩ := hv (.array [] :: stack)
    have hfirst := run_firstItem hr hrests.moved
    obtain ⟨t, ht, hend⟩ := run_items hrest hrests
    have hclose : t.run (blanks ++ [']']) = .ok (put stack (.arr (v :: items))) := by
      rw [run_closing hend hblanks rfl]
      show Except.ok (put stack (.arr (items.reverse ++ [v]).reverse)) = _
      rw [List.reverse_append, List.reverse_reverse]
      rfl
    rw [Json.joinComma_cons, List.append_assoc, List.append_assoc, run_append hfirst, run_append ht,
      hclose]

/-- The fields after some more of them have been read. -/
def setFields (done more : Fields) : Fields :=
  more.foldl (fun acc f => Json.setField f.1 f.2 acc) done

/-- Fields with keys of their own are kept in their order. -/
theorem setFields_of_nodup (done more : Fields) (h : ((done ++ more).map Prod.fst).Nodup) :
    setFields done more = done ++ more := by
  induction more generalizing done with
  | nil => rw [List.append_nil]; rfl
  | cons f more ih =>
    have hnew : f.1 ∉ done.map Prod.fst := by
      intro hmem
      rw [List.map_append, List.nodup_append] at h
      exact h.2.2 f.1 hmem f.1 List.mem_cons_self rfl
    have hset : setFields done (f :: more) = setFields (done ++ [f]) more := by
      rw [setFields, List.foldl_cons, Json.setField_of_not_mem f.2 hnew]
      rfl
    rw [hset, ih (done ++ [f]) (by rwa [List.append_assoc]), List.append_assoc]
    rfl

/-- **The text of a field**: its key, a colon and the text of its value, behind any blanks. -/
def ReadsField (text : List Char) (field : String × Json) : Prop :=
  ∃ blanks value, Blank blanks ∧ Reads value field.2 ∧
    text = blanks ++ (Quoted.encode field.1 ++ ':' :: value)

/-- A field is read from where its key may start. -/
theorem run_field {text : List Char} {field : String × Json} (h : ReadsField text field)
    {mode : Mode} (hmode : mode = .firstKey ∨ mode = .nextKey) (done : Fields) (last : String)
    (stack : List Frame) :
    ∃ t, run ⟨mode, .object done last :: stack⟩ text = .ok t ∧
      t.Rests ⟨.afterItem, .object (Json.setField field.1 field.2 done) field.1 :: stack⟩ := by
  obtain ⟨blanks, value, hblanks, hvalue, rfl⟩ := h
  have hskip : run ⟨mode, .object done last :: stack⟩ blanks =
      .ok ⟨mode, .object done last :: stack⟩ := by
    refine run_blanks (fun c hc => ?_) hblanks
    rcases hmode with rfl | rfl <;> exact if_pos hc
  have hquote : step ⟨mode, .object done last :: stack⟩ '"' =
      .ok ⟨.text true {}, .object done last :: stack⟩ := by
    rcases hmode with rfl | rfl <;> rfl
  have hkey := run_quoted true field.1 (.object done last :: stack)
  have hcolon : step ⟨.colon, .object done field.1 :: stack⟩ ':' =
      .ok ⟨.value, .object done field.1 :: stack⟩ := rfl
  obtain ⟨t, ht, hend⟩ := hvalue (.object done field.1 :: stack)
  refine ⟨t, ?_, hend⟩
  rw [run_append hskip, Quoted.encode, List.cons_append, List.cons_append, run_cons hquote,
    run_append hkey, if_pos rfl]
  exact (run_cons hcolon _).trans ht

/-- Each field is read from behind its comma. -/
theorem run_fields {texts : List (List Char)} {fields : Fields}
    (h : List.Forall₂ ReadsField texts fields) {s : Reader} {done : Fields} {last : String}
    {stack : List Frame} (hs : s.Rests ⟨.afterItem, .object done last :: stack⟩) :
    ∃ t key, s.run (texts.flatMap (',' :: ·)) = .ok t ∧
      t.Rests ⟨.afterItem, .object (setFields done fields) key :: stack⟩ := by
  induction h generalizing s done last with
  | nil => exact ⟨s, last, rfl, hs⟩
  | @cons text f texts fields hf _ ih =>
    have hcomma : s.step ',' = .ok ⟨.nextKey, .object done last :: stack⟩ := hs.step ',' rfl
    obtain ⟨r, hr, hrest⟩ := run_field hf (.inr rfl) done last stack
    obtain ⟨t, key, ht, hend⟩ := ih hrest
    refine ⟨t, key, ?_, hend⟩
    rw [List.flatMap_cons, List.cons_append, run_cons hcomma, run_append hr, ht]

/-- **An object is read from the texts of its fields**, with any blanks before its end, if its keys
    differ. -/
theorem reads_obj {texts : List (List Char)} {fields : Fields} {blanks : List Char}
    (h : List.Forall₂ ReadsField texts fields) (hkeys : (fields.map Prod.fst).Nodup)
    (hblanks : Blank blanks) (hempty : texts = [] → blanks = []) :
    Reads ('{' :: Json.joinComma texts ++ blanks ++ ['}']) (.obj fields) := by
  intro stack
  have hopen : step ⟨.value, stack⟩ '{' = .ok ⟨.firstKey, .object [] "" :: stack⟩ := rfl
  refine ⟨put stack (.obj fields), ?_, rests_put stack _⟩
  rw [List.cons_append, List.cons_append, run_cons hopen]
  cases h with
  | nil =>
    rw [hempty rfl]
    rfl
  | @cons text f texts fields hf hrest =>
    obtain ⟨r, hr, hrests⟩ := run_field hf (.inl rfl) [] "" stack
    obtain ⟨t, key, ht, hend⟩ := run_fields hrest hrests
    have hall : setFields (Json.setField f.1 f.2 []) fields = f :: fields :=
      setFields_of_nodup [f] fields hkeys
    have hclose : t.run (blanks ++ ['}']) = .ok (put stack (.obj (f :: fields))) := by
      rw [run_closing hend hblanks rfl, hall]
      rfl
    rw [Json.joinComma_cons, List.append_assoc, List.append_assoc, run_append hr, run_append ht,
      hclose]

/-! ## 6. Values -/

namespace Json

mutual

/-- **Values that their text determines**: the numbers are integers from `-2 ^ 63` to `2 ^ 64 - 1`,
    and the keys of each object differ. -/
def isPlain : Json → Bool
  | .null | .bool _ | .str _ => true
  | .num (.int n) => decide (-2 ^ 63 ≤ n ∧ n < 2 ^ 64)
  | .num (.real _) => false
  | .arr items => isPlainItems items
  | .obj fields => decide (fields.map Prod.fst).Nodup && isPlainFields fields

/-- Whether all items are plain. -/
def isPlainItems : List Json → Bool
  | [] => true
  | v :: rest => isPlain v && isPlainItems rest

/-- Whether the values of all fields are plain. -/
def isPlainFields : List (String × Json) → Bool
  | [] => true
  | (_, v) :: rest => isPlain v && isPlainFields rest

end

theorem isPlainItems_eq_all (items : List Json) : isPlainItems items = items.all isPlain := by
  induction items with
  | nil => rfl
  | cons v rest ih => rw [isPlainItems, ih, List.all_cons]

theorem isPlainFields_eq_all (fields : Fields) :
    isPlainFields fields = fields.all fun f => f.2.isPlain := by
  induction fields with
  | nil => rfl
  | cons f rest ih => rw [isPlainFields, ih, List.all_cons]

/-- The compact text of a plain value takes the reader to rest behind that value. -/
theorem reads_compact {v : Json} (h : v.isPlain = true) : Reads v.compact v := by
  induction v using Json.induction with
  | null => exact reads_null
  | bool b => exact reads_bool b
  | num n =>
    cases n with
    | int n =>
      have hrange : -2 ^ 63 ≤ n ∧ n < 2 ^ 64 := of_decide_eq_true h
      exact reads_int hrange.1 hrange.2
    | real x => cases h
  | str s => exact reads_str s
  | arr items ih =>
    rw [isPlain, isPlainItems_eq_all, List.all_eq_true] at h
    have hitems : List.Forall₂ Reads (items.map compact) items :=
      List.forall₂_map_left_iff.mpr (List.forall₂_same.mpr fun v hv => ih v hv (h v hv))
    have hall := reads_arr hitems blank_nil fun _ => rfl
    rw [compact, compactItems_eq_map]
    rwa [List.append_nil] at hall
  | obj fields ih =>
    rw [isPlain, isPlainFields_eq_all, Bool.and_eq_true, decide_eq_true_iff, List.all_eq_true] at h
    have hfields : List.Forall₂ ReadsField (fields.map fieldText) fields := by
      refine List.forall₂_map_left_iff.mpr (List.forall₂_same.mpr fun f hf => ?_)
      exact ⟨[], f.2.compact, blank_nil, ih f hf (h.2 f hf), rfl⟩
    have hall := reads_obj hfields h.1 blank_nil fun _ => rfl
    rw [compact, compactFields_eq_map]
    rwa [List.append_nil] at hall

/-- **A plain value is read back from its compact text.** -/
theorem read_compact {v : Json} (h : v.isPlain = true) : read v.compact = .ok v :=
  (reads_compact h).read_eq

end Json

end CallNames
