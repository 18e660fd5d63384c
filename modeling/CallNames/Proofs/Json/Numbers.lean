import CallNames.Proofs.Json.Grammar

/-!
# Numbers that are read

The numbers of the grammar, against the machine that takes them character by character. What may
follow in each state of such a machine is a language of its own, **told by its first character**:
that one continues the machine, and the others may follow in the state it leads to
(`follows_iff_through?`).

* `Numeral.Follows`: what may follow each part of a numeral, in the words of the grammar;
* `Numeral.isNumber_iff`: **a text is a number exactly if its numeral may end where the text does**;
* `IsRepresentable`: the numbers that are read, which are those whose numeral has a value.
-/

namespace CallNames

open Json

/-! ## 1. Machines that go on -/

/-- The state after all characters of a text, if each of them continues the machine. -/
def through? {σ : Type} (next : σ → Char → Except TextDefect (Option σ)) (s : σ) :
    List Char → Option σ
  | [] => some s
  | c :: text =>
    match next s c with
    | .ok (some t) => through? next t text
    | _ => none

section

variable {σ : Type} {next : σ → Char → Except TextDefect (Option σ)}

theorem through?_cons {s t : σ} {c : Char} (h : next s c = .ok (some t)) (text : List Char) :
    through? next s (c :: text) = through? next t text := by
  rw [through?, h]

theorem through?_cons_eq_some {s t : σ} {c : Char} {text : List Char}
    (h : through? next s (c :: text) = some t) :
    ∃ r, next s c = .ok (some r) ∧ through? next r text = some t := by
  rw [through?] at h
  split at h
  · rename_i r hr
    exact ⟨r, hr, h⟩
  · cases h

/-- **If what may follow is told by its first character, then it is what leads to an end.** -/
theorem follows_iff_through? {follows : σ → List Char → Prop} {final : σ → Prop}
    (hnil : ∀ s, follows s [] ↔ final s)
    (hcons : ∀ s c text, follows s (c :: text) ↔ ∃ t, next s c = .ok (some t) ∧ follows t text)
    (s : σ) (text : List Char) :
    follows s text ↔ ∃ t, through? next s text = some t ∧ final t := by
  induction text generalizing s with
  | nil => simp [hnil, through?]
  | cons c text ih =>
    rw [hcons]
    constructor
    · intro h
      obtain ⟨r, hr, hfollows⟩ := h
      rw [through?_cons hr]
      exact (ih r).mp hfollows
    · intro h
      obtain ⟨t, ht, hfinal⟩ := h
      obtain ⟨r, hr, hrest⟩ := through?_cons_eq_some ht
      exact ⟨r, hr, (ih r).mpr ⟨t, hrest, hfinal⟩⟩

end

/-! ## 2. What may follow in a number -/

namespace Numeral

/-- Any digits, and then a text of another kind. -/
def DigitsThen (rest : List Char → Prop) (text : List Char) : Prop :=
  ∃ digits behind, (∀ c ∈ digits, c.isDigit = true) ∧ rest behind ∧ text = digits ++ behind

/-- What may stand behind the whole part: a fraction and an exponent, of which any may be absent. -/
def IsDecimals (text : List Char) : Prop :=
  ∃ fraction exponent, IsFraction fraction ∧ IsExponent exponent ∧ text = fraction ++ exponent

/-- **What may follow a part of a number up to the number's end.** -/
def Follows : NumeralPart → List Char → Prop
  | .sign, text => ∃ whole rest, IsWhole whole ∧ IsDecimals rest ∧ text = whole ++ rest
  | .leadingZero, text => IsDecimals text
  | .whole, text => DigitsThen IsDecimals text
  | .point, text => ∃ digits rest, IsDigits digits ∧ IsExponent rest ∧ text = digits ++ rest
  | .fraction, text => DigitsThen IsExponent text
  | .mark, text =>
    ∃ sign digits, sign ∈ [[], ['+'], ['-']] ∧ IsDigits digits ∧ text = sign ++ digits
  | .markSign, text => IsDigits text
  | .exponent, text => ∀ c ∈ text, c.isDigit = true

variable {rest : List Char → Prop} {c : Char} {text : List Char}

theorem digitsThen_nil : DigitsThen rest [] ↔ rest [] := by
  constructor
  · intro h
    obtain ⟨digits, behind, -, hrest, htext⟩ := h
    obtain ⟨rfl, rfl⟩ := List.append_eq_nil_iff.mp htext.symm
    exact hrest
  · exact fun h => ⟨[], [], List.forall_mem_nil _, h, rfl⟩

theorem digitsThen_cons :
    DigitsThen rest (c :: text) ↔ c.isDigit = true ∧ DigitsThen rest text ∨ rest (c :: text) := by
  constructor
  · intro h
    obtain ⟨digits, behind, hdigits, hrest, htext⟩ := h
    cases digits with
    | nil =>
      rw [htext]
      exact .inr hrest
    | cons d digits =>
      obtain ⟨rfl, rfl⟩ := List.cons.inj htext
      obtain ⟨hd, hdigits⟩ := List.forall_mem_cons.mp hdigits
      exact .inl ⟨hd, digits, behind, hdigits, hrest, rfl⟩
  · intro h
    rcases h with ⟨hc, digits, behind, hdigits, hrest, rfl⟩ | hrest
    · exact ⟨c :: digits, behind, List.forall_mem_cons.mpr ⟨hc, hdigits⟩, hrest, rfl⟩
    · exact ⟨[], c :: text, List.forall_mem_nil _, hrest, rfl⟩

theorem isDigits_cons :
    IsDigits (c :: text) ↔ c.isDigit = true ∧ ∀ d ∈ text, d.isDigit = true := by
  simp [IsDigits]

theorem not_isWhole_nil : ¬ IsWhole [] := by
  intro h
  rcases h with h | h
  · cases h
  · exact h.1.1 rfl

theorem isExponent_cons :
    IsExponent (c :: text) ↔ (c = 'e' ∨ c = 'E') ∧ Follows .mark text := by
  constructor
  · intro h
    rcases h with h | ⟨mark, sign, digits, hmark, hsign, hdigits, htext⟩
    · cases h
    · obtain ⟨rfl, rfl⟩ := List.cons.inj htext
      exact ⟨by simpa using hmark, sign, digits, hsign, hdigits, rfl⟩
  · intro h
    obtain ⟨hmark, sign, digits, hsign, hdigits, rfl⟩ := h
    exact .inr ⟨c, sign, digits, by simpa using hmark, hsign, hdigits, rfl⟩

theorem follows_mark_cons :
    Follows .mark (c :: text) ↔
      (c = '+' ∨ c = '-') ∧ IsDigits text ∨ c.isDigit = true ∧ ∀ d ∈ text, d.isDigit = true := by
  constructor
  · intro h
    obtain ⟨sign, digits, hsign, hdigits, htext⟩ := h
    simp only [List.mem_cons, List.not_mem_nil, or_false] at hsign
    rcases hsign with rfl | rfl | rfl
    · rw [List.nil_append] at htext
      rw [← htext] at hdigits
      exact .inr (isDigits_cons.mp hdigits)
    · obtain ⟨rfl, rfl⟩ := List.cons.inj htext
      exact .inl ⟨.inl rfl, hdigits⟩
    · obtain ⟨rfl, rfl⟩ := List.cons.inj htext
      exact .inl ⟨.inr rfl, hdigits⟩
  · intro h
    rcases h with ⟨rfl | rfl, hdigits⟩ | hdigits
    · exact ⟨['+'], text, by decide, hdigits, rfl⟩
    · exact ⟨['-'], text, by decide, hdigits, rfl⟩
    · exact ⟨[], c :: text, by decide, isDigits_cons.mpr hdigits, rfl⟩

/-- One digit, and then more of them and a text of another kind. -/
theorem exists_isDigits_cons :
    (∃ digits behind, IsDigits digits ∧ rest behind ∧ c :: text = digits ++ behind) ↔
      c.isDigit = true ∧ DigitsThen rest text := by
  constructor
  · intro h
    obtain ⟨digits, behind, hdigits, hrest, htext⟩ := h
    obtain ⟨d, digits, rfl⟩ := List.exists_cons_of_ne_nil hdigits.1
    obtain ⟨rfl, rfl⟩ := List.cons.inj htext
    obtain ⟨hd, hmore⟩ := isDigits_cons.mp hdigits
    exact ⟨hd, digits, behind, hmore, hrest, rfl⟩
  · intro h
    obtain ⟨hc, digits, behind, hdigits, hrest, rfl⟩ := h
    exact ⟨c :: digits, behind, isDigits_cons.mpr ⟨hc, hdigits⟩, hrest, rfl⟩

theorem isDecimals_cons :
    IsDecimals (c :: text) ↔ c = '.' ∧ Follows .point text ∨ IsExponent (c :: text) := by
  constructor
  · intro h
    obtain ⟨fraction, exponent, rfl | ⟨digits, hdigits, rfl⟩, hexponent, htext⟩ := h
    · rw [htext]
      exact .inr hexponent
    · obtain ⟨rfl, rfl⟩ := List.cons.inj htext
      exact .inl ⟨rfl, digits, exponent, hdigits, hexponent, rfl⟩
  · intro h
    rcases h with ⟨rfl, digits, exponent, hdigits, hexponent, rfl⟩ | hexponent
    · exact ⟨'.' :: digits, exponent, .inr ⟨digits, hdigits, rfl⟩, hexponent, rfl⟩
    · exact ⟨[], c :: text, .inl rfl, hexponent, rfl⟩

theorem follows_point_cons :
    Follows .point (c :: text) ↔ c.isDigit = true ∧ DigitsThen IsExponent text :=
  exists_isDigits_cons

/-- No digit starts an exponent. -/
theorem not_isExponent_cons (h : c.isDigit = true) : ¬ IsExponent (c :: text) := by
  rw [isExponent_cons]
  intro hexponent
  rcases hexponent.1 with rfl | rfl <;> cases h

/-- No digit starts a fraction or an exponent. -/
theorem not_isDecimals_cons (h : c.isDigit = true) : ¬ IsDecimals (c :: text) := by
  rw [isDecimals_cons]
  intro hdecimals
  rcases hdecimals with ⟨rfl, -⟩ | hexponent
  · cases h
  · exact not_isExponent_cons h hexponent

theorem follows_sign_cons :
    Follows .sign (c :: text) ↔
      c = '0' ∧ IsDecimals text ∨ c ≠ '0' ∧ c.isDigit = true ∧ DigitsThen IsDecimals text := by
  constructor
  · intro h
    obtain ⟨whole, behind, rfl | ⟨hdigits, hhead⟩, hbehind, htext⟩ := h
    · obtain ⟨rfl, rfl⟩ := List.cons.inj htext
      exact .inl ⟨rfl, hbehind⟩
    · have hmore := exists_isDigits_cons.mp ⟨whole, behind, hdigits, hbehind, htext⟩
      obtain ⟨d, digits, rfl⟩ := List.exists_cons_of_ne_nil hdigits.1
      obtain ⟨rfl, -⟩ := List.cons.inj htext
      exact .inr ⟨fun e => hhead (congrArg some e), hmore⟩
  · intro h
    rcases h with ⟨rfl, hbehind⟩ | ⟨hzero, hc, digits, behind, hdigits, hbehind, rfl⟩
    · exact ⟨['0'], text, .inl rfl, hbehind, rfl⟩
    · refine ⟨c :: digits, behind, .inr ⟨isDigits_cons.mpr ⟨hc, hdigits⟩, ?_⟩, hbehind, rfl⟩
      exact fun e => hzero (Option.some.inj e)

theorem isNumber_cons :
    IsNumber (c :: text) ↔ c = '-' ∧ Follows .sign text ∨ Follows .sign (c :: text) := by
  constructor
  · intro h
    obtain ⟨sign, whole, fraction, exponent, hsign, hwhole, hfraction, hexponent, htext⟩ := h
    have hbehind : IsDecimals (fraction ++ exponent) :=
      ⟨fraction, exponent, hfraction, hexponent, rfl⟩
    rw [List.append_assoc, List.append_assoc] at htext
    simp only [List.mem_cons, List.not_mem_nil, or_false] at hsign
    rcases hsign with rfl | rfl
    · exact .inr ⟨whole, _, hwhole, hbehind, htext⟩
    · obtain ⟨rfl, rfl⟩ := List.cons.inj htext
      exact .inl ⟨rfl, whole, _, hwhole, hbehind, rfl⟩
  · intro h
    rcases h with ⟨rfl, whole, _, hwhole, hbehind, rfl⟩ | ⟨whole, _, hwhole, hbehind, htext⟩
    · obtain ⟨fraction, exponent, hfraction, hexponent, rfl⟩ := hbehind
      exact ⟨['-'], whole, fraction, exponent, by decide, hwhole, hfraction, hexponent, by simp⟩
    · obtain ⟨fraction, exponent, hfraction, hexponent, rfl⟩ := hbehind
      exact ⟨[], whole, fraction, exponent, by decide, hwhole, hfraction, hexponent, by simpa⟩

/-! ## 3. Reading a number -/

@[simp] theorem part_push (n : Numeral) (d : Nat) (afterPoint : Bool) :
    (n.push d afterPoint).part = n.part := by
  unfold push
  split <;> rfl

/-- The digits have values, and nothing else has. -/
theorem digit?_eq_none_iff {c : Char} : digit? c = none ↔ c.isDigit = false := by
  unfold digit? Char.isDigit
  split <;> simp_all [Char.le_def]

theorem isDigit_of_digit? {c : Char} {d : Nat} (h : digit? c = some d) : c.isDigit = true := by
  rw [← Bool.not_eq_false, ← digit?_eq_none_iff, h]
  exact Option.some_ne_none d

theorem digit?_eq_zero_iff {c : Char} : digit? c = some 0 ↔ c = '0' := by
  constructor
  · intro h
    unfold digit? at h
    split_ifs at h with hc
    have hle : '0'.toNat ≤ c.toNat := hc.1
    have hzero := Option.some.inj h
    exact Char.toNat_inj.mp (by omega)
  · rintro rfl
    rfl

theorem ne_zero_of_digit? {c : Char} {d : Nat} (h : digit? c = some d) (hc : c ≠ '0') : d ≠ 0 := by
  rintro rfl
  exact hc (digit?_eq_zero_iff.mp h)

/-- Behind the whole part, a point or a mark goes on to the fraction or to the exponent. -/
theorem follows_branch? {n : Numeral} (hn : n.part ≠ .fraction) {c : Char} {text : List Char} :
    (∃ m, n.branch? c = some m ∧ Follows m.part text) ↔ IsDecimals (c :: text) := by
  rw [isDecimals_cons, isExponent_cons, branch?]
  by_cases hpoint : c = '.'
  · simp [hpoint, hn]
  · by_cases hmark : c = 'e' ∨ c = 'E'
    · simp [hpoint, hmark]
    · simp [hpoint, hmark]

/-- Behind the fraction, only a mark goes on. -/
theorem follows_branch?_fraction {n : Numeral} (hn : n.part = .fraction) {c : Char}
    {text : List Char} :
    (∃ m, n.branch? c = some m ∧ Follows m.part text) ↔ IsExponent (c :: text) := by
  rw [isExponent_cons, branch?]
  by_cases hmark : c = 'e' ∨ c = 'E'
  · simp [hmark, hn]
  · simp [hmark, hn]

/-- What may follow a part, if the next character is no digit. -/
theorem follows_cons_of_none {c : Char} (hd : digit? c = none) (n : Numeral) (text : List Char) :
    Follows n.part (c :: text) ↔ ∃ m, n.next c = .ok (some m) ∧ Follows m.part text := by
  have hc := digit?_eq_none_iff.mp hd
  have hbranch : n.next c = .ok (n.branch? c) →
      ((∃ m, n.next c = .ok (some m) ∧ Follows m.part text) ↔
        ∃ m, n.branch? c = some m ∧ Follows m.part text) := by
    intro h
    simp [h]
  cases hp : n.part with
  | sign =>
    have hzero : c ≠ '0' := mt digit?_eq_zero_iff.mpr (by simp [hd])
    simp [next, hp, hd, follows_sign_cons, hc, hzero]
  | leadingZero =>
    rw [hbranch (by simp [next, hp, hd]), follows_branch? (by simp [hp])]
    rfl
  | whole =>
    rw [hbranch (by simp [next, hp, hd]), follows_branch? (by simp [hp])]
    simp [Follows, digitsThen_cons, hc]
  | fraction =>
    rw [hbranch (by simp [next, hp, hd]), follows_branch?_fraction hp]
    simp [Follows, digitsThen_cons, hc]
  | mark =>
    rw [follows_mark_cons]
    by_cases hplus : c = '+'
    · subst hplus
      simp [next, hp, hd, Follows]
    · by_cases hminus : c = '-'
      · subst hminus
        simp [next, hp, hd, Follows]
      · simp [next, hp, hd, hplus, hminus, hc]
  | point => simp [next, hp, hd, follows_point_cons, hc]
  | markSign => simp [next, hp, hd, Follows, isDigits_cons, hc]
  | exponent => simp [next, hp, hd, Follows, hc]

/-- What may follow a part, if the next character is a digit. -/
theorem follows_cons_of_some {c : Char} {d : Nat} (hd : digit? c = some d) (n : Numeral)
    (text : List Char) :
    Follows n.part (c :: text) ↔ ∃ m, n.next c = .ok (some m) ∧ Follows m.part text := by
  have hc := isDigit_of_digit? hd
  cases hp : n.part with
  | sign =>
    rw [follows_sign_cons]
    by_cases hzero : c = '0'
    · subst hzero
      have hnext : n.next '0' = .ok (some { n with part := .leadingZero }) := by
        simp [next, hp, digit?_eq_zero_iff.mpr rfl]
      simp [hnext, Follows]
    · have hnonzero := ne_zero_of_digit? hd hzero
      have hnext : n.next c = .ok (some { n with part := .whole, digits := d }) := by
        simp [next, hp, hd]
      simp [hnext, hzero, hc, Follows]
  | leadingZero => simp [next, hp, hd, Follows, not_isDecimals_cons hc]
  | whole => simp [next, hp, hd, Follows, digitsThen_cons, hc, not_isDecimals_cons hc]
  | point =>
    rw [follows_point_cons]
    simp [next, hp, hd, hc, Follows]
  | fraction => simp [next, hp, hd, Follows, digitsThen_cons, hc, not_isExponent_cons hc]
  | mark =>
    have hsign : ¬ (c = '+' ∨ c = '-') := by
      rintro (rfl | rfl) <;> cases hc
    rw [follows_mark_cons]
    simp [next, hp, hd, hc, hsign, Follows]
  | markSign => simp [next, hp, hd, Follows, isDigits_cons, hc]
  | exponent => simp [next, hp, hd, Follows, hc]

/-- **What may follow a part is told by its first character**: that one continues the numeral, and
    the others may follow the part that it leads to. -/
theorem follows_cons (n : Numeral) (c : Char) (text : List Char) :
    Follows n.part (c :: text) ↔ ∃ m, n.next c = .ok (some m) ∧ Follows m.part text := by
  cases hd : digit? c with
  | none => exact follows_cons_of_none hd n text
  | some d => exact follows_cons_of_some hd n text

theorem follows_nil (n : Numeral) : Follows n.part [] ↔ n.isComplete = true := by
  have hexponent : IsExponent [] := .inl rfl
  have hdecimals : IsDecimals [] := ⟨[], [], .inl rfl, hexponent, rfl⟩
  have hdigits : ¬ IsDigits [] := fun h => h.1 rfl
  unfold isComplete
  cases hp : n.part with
  | sign => simp [Follows, not_isWhole_nil]
  | leadingZero => simp [Follows, hdecimals]
  | whole => simp [Follows, digitsThen_nil, hdecimals]
  | point => simp [Follows, hdigits]
  | fraction => simp [Follows, digitsThen_nil, hexponent]
  | mark => simp [Follows, hdigits]
  | markSign => simp [Follows, hdigits]
  | exponent => simp [Follows]

/-- A numeral that has ended before a character was complete. -/
theorem isComplete_of_next {n : Numeral} {c : Char} (h : n.next c = .ok none) :
    n.isComplete = true := by
  unfold next at h
  unfold isComplete
  split at h <;> simp_all
  -- behind an exponent mark, a sign goes on and any other character is refused
  split_ifs at h <;> cases h

/-- A number starts as a numeral does. -/
theorem isNumber_cons_iff {c : Char} {text : List Char} :
    IsNumber (c :: text) ↔ ∃ n, start? c = some n ∧ Follows n.part text := by
  rw [isNumber_cons, follows_sign_cons]
  by_cases hminus : c = '-'
  · subst hminus
    have hstart : start? '-' = some { part := .sign, negative := true } := rfl
    simp [hstart, Char.isDigit]
  · cases hd : digit? c with
    | none =>
      have hc := digit?_eq_none_iff.mp hd
      have hzero : c ≠ '0' := mt digit?_eq_zero_iff.mpr (by simp [hd])
      simp [start?, hminus, hd, hc, hzero]
    | some d =>
      have hc := isDigit_of_digit? hd
      by_cases hzero : c = '0'
      · subst hzero
        have hstart : start? '0' = some { part := .leadingZero } := rfl
        simp [hstart, Follows]
      · have hnonzero := ne_zero_of_digit? hd hzero
        have hstart : start? c = some { part := .whole, digits := d } := by
          simp [start?, hminus, hd]
        simp [hstart, hminus, hzero, hc, Follows]

/-- The numeral that the characters of a text make up. -/
def ofText? : List Char → Option Numeral
  | [] => none
  | c :: text => (start? c).bind (through? next · text)

/-- **A text is a number exactly if its numeral may end where the text does.** -/
theorem isNumber_iff {text : List Char} :
    IsNumber text ↔ ∃ n, ofText? text = some n ∧ n.isComplete = true := by
  cases text with
  | nil =>
    constructor
    · intro h
      obtain ⟨sign, whole, fraction, exponent, -, hwhole, -, -, htext⟩ := h
      obtain rfl : whole = [] := by simp_all
      exact absurd hwhole not_isWhole_nil
    · intro h
      obtain ⟨n, hn, -⟩ := h
      cases hn
  | cons c text =>
    have hfollows := fun n => follows_iff_through? follows_nil follows_cons n text
    rw [isNumber_cons_iff]
    constructor
    · intro h
      obtain ⟨n, hn, htext⟩ := h
      rw [ofText?, hn]
      exact (hfollows n).mp htext
    · intro h
      obtain ⟨m, hm, hcomplete⟩ := h
      obtain ⟨n, hn, hthrough⟩ := Option.bind_eq_some_iff.mp hm
      exact ⟨n, hn, (hfollows n).mpr ⟨m, hthrough, hcomplete⟩⟩

end Numeral

/-- **A number that is read**: one whose numeral has a value. -/
def IsRepresentable (text : List Char) : Prop :=
  IsNumber text ∧ ∃ n x, Numeral.ofText? text = some n ∧ n.value = .ok x

theorem isRepresentable_iff {text : List Char} :
    IsRepresentable text ↔
      ∃ n x, Numeral.ofText? text = some n ∧ n.isComplete = true ∧ n.value = .ok x := by
  constructor
  · intro h
    obtain ⟨hnumber, n, x, hn, hx⟩ := h
    obtain ⟨m, hm, hcomplete⟩ := Numeral.isNumber_iff.mp hnumber
    obtain rfl := Option.some.inj (hn.symm.trans hm)
    exact ⟨n, x, hn, hcomplete, hx⟩
  · intro h
    obtain ⟨n, x, hn, hcomplete, hx⟩ := h
    exact ⟨Numeral.isNumber_iff.mpr ⟨n, hn, hcomplete⟩, n, x, hn, hx⟩

end CallNames
