import CallNames.Proofs.Json.LockStep
import CallNames.Proofs.Json.Numbers

/-!
# Strings that are read

The strings of the grammar, against the machine that takes them character by character.

* `Content`: the content of a string where **each leading surrogate has a trailing one right behind
  it, and neither stands alone**;
* `Escape.Follows`: what may follow inside each escape, told by its first character
  (`Quoted.follows_cons`);
* `Quoted.content_iff`: **the content of a string is what is taken between two quotes**, up to a
  point outside any escape. `IsPaired` are the strings with such content, and each of them is a
  string of the grammar (`IsPaired.isQuoted`).
-/

namespace CallNames

open Json

/-! ## 1. What may follow in a string -/

/-- The code unit that hexadecimal digits make up behind those of `value`. -/
def unitFrom? (value : Nat) : List Char → Option Nat
  | [] => some value
  | c :: digits => (hexDigit? c).bind fun d => unitFrom? (16 * value + d) digits

/-- Four hexadecimal digits, and the code unit that they make up. -/
def IsCode (code : List Char) (unit : Nat) : Prop :=
  code.length = 4 ∧ unitFrom? 0 code = some unit

/-- **The content of a string that is read**: characters, escapes and pairs of surrogates. -/
inductive Content : List Char → Prop where
  | nil : Content []
  | plain {c : Char} {rest : List Char} : 0x20 ≤ c.toNat → c ≠ '"' → c ≠ '\\' → Content rest →
      Content (c :: rest)
  | letter {c : Char} {rest : List Char} : c ∈ ['"', '\\', '/', 'b', 'f', 'n', 'r', 't'] →
      Content rest → Content ('\\' :: c :: rest)
  | unit {code rest : List Char} {unit : Nat} : IsCode code unit → Quoted.isLead unit = false →
      Quoted.isTrail unit = false → Content rest → Content ('\\' :: 'u' :: code ++ rest)
  | pair {code code' rest : List Char} {lead trail : Nat} : IsCode code lead →
      Quoted.isLead lead = true → IsCode code' trail → Quoted.isTrail trail = true →
      Content rest → Content ('\\' :: 'u' :: code ++ ('\\' :: 'u' :: code' ++ rest))

/-- What may follow a leading surrogate: the escape of a trailing one, and more content. -/
def FollowsLead (text : List Char) : Prop :=
  ∃ code rest trail, IsCode code trail ∧ Quoted.isTrail trail = true ∧ Content rest ∧
    text = '\\' :: 'u' :: code ++ rest

/-- What may follow a code unit, with or without a leading surrogate before it. -/
def FollowsUnit (lead : Option Nat) (unit : Nat) (text : List Char) : Prop :=
  match lead with
  | some _ => Quoted.isTrail unit = true ∧ Content text
  | none =>
    Quoted.isTrail unit = false ∧ if Quoted.isLead unit then FollowsLead text else Content text

/-- **What may follow inside an escape up to the end of the string.** -/
def Escape.Follows : Escape → List Char → Prop
  | .none, text => Content text
  | .backslash, text => Content ('\\' :: text)
  | .unit first value count, text =>
    ∃ digits rest unit, digits ≠ [] ∧ digits.length + count = 4 ∧
      unitFrom? value digits = some unit ∧ FollowsUnit first unit rest ∧ text = digits ++ rest
  | .spoiled _, _ => False
  | .lead _, text => FollowsLead text
  | .leadBackslash _, text => FollowsLead ('\\' :: text)

/-- No code unit is both a leading and a trailing surrogate. -/
theorem Quoted.isTrail_of_isLead {unit : Nat} (h : isLead unit = true) : isTrail unit = false := by
  simp only [isLead, Bool.and_eq_true, decide_eq_true_eq] at h
  simp [isTrail]
  omega

/-- The escape of a code unit goes on as what may follow it does. -/
theorem content_of_followsUnit {code rest : List Char} {unit : Nat} (hcode : IsCode code unit)
    (h : FollowsUnit none unit rest) : Content ('\\' :: 'u' :: code ++ rest) := by
  obtain ⟨htrail, hrest⟩ := h
  split_ifs at hrest with hlead
  · obtain ⟨code', rest, trail, hcode', htrail', hcontent, rfl⟩ := hrest
    exact .pair hcode hlead hcode' htrail' hcontent
  · exact .unit hcode (Bool.eq_false_of_not_eq_true hlead) htrail hrest

/-- A character that is no backslash stands for itself. -/
theorem content_cons {c : Char} (h : c ≠ '\\') {text : List Char} :
    Content (c :: text) ↔ 0x20 ≤ c.toNat ∧ c ≠ '"' ∧ Content text := by
  constructor
  · intro hcontent
    cases hcontent with
    | plain hcontrol hquote _ hrest => exact ⟨hcontrol, hquote, hrest⟩
    | letter => exact absurd rfl h
    | unit => exact absurd rfl h
    | pair => exact absurd rfl h
  · intro hparts
    obtain ⟨hcontrol, hquote, hrest⟩ := hparts
    exact .plain hcontrol hquote h hrest

/-- What stands behind a backslash: a letter, or a code unit and what may follow it. -/
theorem content_backslash_cons {c : Char} {text : List Char} :
    Content ('\\' :: c :: text) ↔
      c ∈ ['"', '\\', '/', 'b', 'f', 'n', 'r', 't'] ∧ Content text ∨
      c = 'u' ∧ ∃ code rest unit, IsCode code unit ∧ FollowsUnit none unit rest ∧
        text = code ++ rest := by
  constructor
  · intro h
    generalize htext : '\\' :: c :: text = content at h
    cases h with
    | nil => cases htext
    | plain _ _ hslash _ =>
      obtain ⟨rfl, -⟩ := List.cons.inj htext
      exact absurd rfl hslash
    | letter hc hrest =>
      obtain ⟨-, htext⟩ := List.cons.inj htext
      obtain ⟨rfl, rfl⟩ := List.cons.inj htext
      exact .inl ⟨hc, hrest⟩
    | unit hcode hlead htrail hrest =>
      obtain ⟨-, htext⟩ := List.cons.inj htext
      obtain ⟨rfl, rfl⟩ := List.cons.inj htext
      exact .inr ⟨rfl, _, _, _, hcode, ⟨htrail, by simpa [hlead] using hrest⟩, rfl⟩
    | pair hcode hlead hcode' htrail hrest =>
      obtain ⟨-, htext⟩ := List.cons.inj htext
      obtain ⟨rfl, rfl⟩ := List.cons.inj htext
      refine .inr ⟨rfl, _, _, _, hcode, ⟨Quoted.isTrail_of_isLead hlead, ?_⟩, rfl⟩
      rw [if_pos hlead]
      exact ⟨_, _, _, hcode', htrail, hrest, rfl⟩
  · intro h
    rcases h with ⟨hc, hrest⟩ | ⟨rfl, code, rest, unit, hcode, hfollows, rfl⟩
    · exact .letter hc hrest
    · exact content_of_followsUnit hcode hfollows

/-- At the start of a code unit, all its digits are still to come. -/
theorem follows_unit_zero {lead : Option Nat} {text : List Char} :
    (Escape.unit lead 0 0).Follows text ↔
      ∃ code rest unit, IsCode code unit ∧ FollowsUnit lead unit rest ∧ text = code ++ rest := by
  constructor
  · intro h
    obtain ⟨code, rest, unit, -, hlength, hunit, hfollows, rfl⟩ := h
    exact ⟨code, rest, unit, ⟨hlength, hunit⟩, hfollows, rfl⟩
  · intro h
    obtain ⟨code, rest, unit, ⟨hlength, hunit⟩, hfollows, rfl⟩ := h
    refine ⟨code, rest, unit, ?_, hlength, hunit, hfollows, rfl⟩
    rintro rfl
    cases hlength

theorem not_followsLead_cons {c : Char} (h : c ≠ '\\') (text : List Char) :
    ¬ FollowsLead (c :: text) := by
  intro hlead
  obtain ⟨code, rest, trail, -, -, -, htext⟩ := hlead
  exact h (List.cons.inj htext).1

/-- Behind a leading surrogate and a backslash, the code unit of a trailing one must come. -/
theorem followsLead_backslash_cons {c : Char} (first : Nat) {text : List Char} :
    FollowsLead ('\\' :: c :: text) ↔ c = 'u' ∧ (Escape.unit (some first) 0 0).Follows text := by
  rw [follows_unit_zero]
  constructor
  · intro h
    obtain ⟨code, rest, trail, hcode, htrail, hrest, htext⟩ := h
    obtain ⟨-, htext⟩ := List.cons.inj htext
    obtain ⟨rfl, rfl⟩ := List.cons.inj htext
    exact ⟨rfl, code, rest, trail, hcode, ⟨htrail, hrest⟩, rfl⟩
  · intro h
    obtain ⟨rfl, code, rest, trail, hcode, ⟨htrail, hrest⟩, rfl⟩ := h
    exact ⟨code, rest, trail, hcode, htrail, hrest, rfl⟩

/-! ## 2. Reading a string -/

namespace Quoted

theorem map_some_eq_ok_iff {x : Except TextDefect Quoted} {r : Quoted} :
    some <$> x = .ok (some r) ↔ x = .ok r := by
  refine ⟨of_map_some, ?_⟩
  rintro rfl
  rfl

/-- What is done at the end of a code unit. -/
theorem followsUnit_iff (q : Quoted) (lead : Option Nat) (unit : Nat) (text : List Char) :
    FollowsUnit lead unit text ↔ ∃ r, q.endUnit lead unit = .ok r ∧ r.escape.Follows text := by
  cases lead with
  | some first =>
    cases htrail : isTrail unit with
    | false => simp [FollowsUnit, endUnit, htrail]
    | true => simp [FollowsUnit, endUnit, htrail, push, Escape.Follows]
  | none =>
    cases htrail : isTrail unit with
    | true => simp [FollowsUnit, endUnit, htrail]
    | false =>
      cases hlead : isLead unit with
      | false => simp [FollowsUnit, endUnit, htrail, hlead, push, Escape.Follows]
      | true => simp [FollowsUnit, endUnit, htrail, hlead, Escape.Follows]

/-- A digit of a code unit: the last of the four ends it. -/
theorem follows_unit_cons {c : Char} {d : Nat} (hd : hexDigit? c = some d) (lead : Option Nat)
    (value count : Nat) (text : List Char) :
    (Escape.unit lead value count).Follows (c :: text) ↔
      if count = 3 then FollowsUnit lead (16 * value + d) text
      else (Escape.unit lead (16 * value + d) (count + 1)).Follows text := by
  have hfirst : ∀ digits, unitFrom? value (c :: digits) = unitFrom? (16 * value + d) digits := by
    intro digits
    rw [unitFrom?, hd]
    rfl
  constructor
  · intro h
    obtain ⟨digits, rest, unit, hne, hlength, hunit, hfollows, htext⟩ := h
    obtain ⟨_, digits, rfl⟩ := List.exists_cons_of_ne_nil hne
    obtain ⟨rfl, rfl⟩ := List.cons.inj htext
    rw [hfirst] at hunit
    rw [List.length_cons] at hlength
    split_ifs with hcount
    · obtain rfl := List.eq_nil_of_length_eq_zero (l := digits) (by omega)
      cases hunit
      exact hfollows
    · refine ⟨digits, rest, unit, ?_, by omega, hunit, hfollows, rfl⟩
      rintro rfl
      rw [List.length_nil] at hlength
      omega
  · intro h
    split_ifs at h with hcount
    · exact ⟨[c], text, 16 * value + d, List.cons_ne_nil _ _, by simp [hcount], hfirst [], h, rfl⟩
    · obtain ⟨digits, rest, unit, -, hlength, hunit, hfollows, rfl⟩ := h
      rw [← hfirst] at hunit
      refine ⟨c :: digits, rest, unit, List.cons_ne_nil _ _, ?_, hunit, hfollows, rfl⟩
      rw [List.length_cons]
      omega

/-- What is no hexadecimal digit does not go on with a code unit. -/
theorem not_follows_unit_cons {c : Char} (hd : hexDigit? c = none) (lead : Option Nat)
    (value count : Nat) (text : List Char) :
    ¬ (Escape.unit lead value count).Follows (c :: text) := by
  intro h
  obtain ⟨digits, rest, unit, hne, -, hunit, -, htext⟩ := h
  obtain ⟨_, digits, rfl⟩ := List.exists_cons_of_ne_nil hne
  obtain ⟨rfl, -⟩ := List.cons.inj htext
  rw [unitFrom?, hd] at hunit
  cases hunit

/-- Nothing follows in a spoiled escape. -/
theorem not_follows_of_spoil {q r : Quoted} {bytes : Nat} {c : Char} (h : q.spoil bytes c = .ok r)
    (text : List Char) : ¬ r.escape.Follows text := by
  obtain ⟨n, hn⟩ := spoiled_of_spoil h
  rw [hn]
  exact id

/-- Behind a backslash, a letter ends the escape and `u` starts a code unit. -/
theorem afterBackslash_iff (q : Quoted) (c : Char) (text : List Char) :
    (∃ r, q.afterBackslash c = .ok r ∧ r.escape.Follows text) ↔
      c ∈ ['"', '\\', '/', 'b', 'f', 'n', 'r', 't'] ∧ Content text ∨
        c = 'u' ∧ (Escape.unit none 0 0).Follows text := by
  unfold afterBackslash
  split_ifs with hself hb hf hn hr ht hu
  · rcases hself with rfl | rfl | rfl <;> simp [push, Escape.Follows]
  · simp [hb, push, Escape.Follows]
  · simp [hf, push, Escape.Follows]
  · simp [hn, push, Escape.Follows]
  · simp [hr, push, Escape.Follows]
  · simp [ht, push, Escape.Follows]
  · simp [hu]
  · simp_all

/-- **What may follow inside an escape is told by its first character.** -/
theorem follows_cons (q : Quoted) (c : Char) (text : List Char) :
    q.escape.Follows (c :: text) ↔ ∃ r, q.next c = .ok (some r) ∧ r.escape.Follows text := by
  cases he : q.escape with
  | none =>
    by_cases hslash : c = '\\'
    · simp [next, he, hslash, Escape.Follows]
    · show Content (c :: text) ↔ _
      rw [content_cons hslash]
      by_cases hquote : c = '"'
      · simp [next, he, hquote]
      · by_cases hcontrol : c.toNat < 0x20
        · simp [next, he, hslash, hquote, hcontrol]
        · have hplain : 0x20 ≤ c.toNat := Nat.le_of_not_lt hcontrol
          simp [next, he, hslash, hquote, hcontrol, hplain, push, Escape.Follows]
  | backslash =>
    simp only [next, he, map_some_eq_ok_iff]
    rw [afterBackslash_iff, follows_unit_zero]
    exact content_backslash_cons
  | unit lead value count =>
    cases hd : hexDigit? c with
    | none =>
      simp only [next, he, hd, map_some_eq_ok_iff]
      constructor
      · exact fun h => absurd h (not_follows_unit_cons hd lead value count text)
      · intro h
        obtain ⟨r, hr, hfollows⟩ := h
        exact absurd hfollows (not_follows_of_spoil hr text)
    | some d =>
      rw [follows_unit_cons hd, followsUnit_iff q]
      by_cases hcount : count = 3
      · simp [next, he, hd, hcount, map_some_eq_ok_iff]
      · simp [next, he, hd, hcount]
  | spoiled bytes =>
    simp only [next, he, map_some_eq_ok_iff]
    constructor
    · exact False.elim
    · intro h
      obtain ⟨r, hr, hfollows⟩ := h
      exact absurd hfollows (not_follows_of_spoil hr text)
  | lead value =>
    by_cases hslash : c = '\\'
    · simp [next, he, hslash, Escape.Follows]
    · simp [next, he, hslash, Escape.Follows, not_followsLead_cons hslash]
  | leadBackslash value =>
    show FollowsLead ('\\' :: c :: text) ↔ _
    rw [followsLead_backslash_cons value]
    by_cases hu : c = 'u'
    · simp [next, he, hu]
    · simp [next, he, hu]

theorem follows_nil (q : Quoted) : q.escape.Follows [] ↔ q.escape = .none := by
  cases he : q.escape with
  | none => simp [Escape.Follows, Content.nil]
  | backslash =>
    have hlone : ¬ Content ['\\'] := by
      intro h
      cases h with
      | plain _ _ hslash _ => exact hslash rfl
    simp [Escape.Follows, hlone]
  | unit lead value count => simp [Escape.Follows]
  | spoiled bytes => simp [Escape.Follows]
  | lead value => simp [Escape.Follows, FollowsLead]
  | leadBackslash value => simp [Escape.Follows, FollowsLead]

/-- **The content of a string is what is taken between two quotes**, up to a point outside any
    escape. -/
theorem content_iff {text : List Char} :
    Content text ↔ ∃ q, through? next {} text = some q ∧ q.escape = .none :=
  follows_iff_through? follows_nil follows_cons {} text

end Quoted

/-! ## 3. Strings in the grammar -/

theorem isHex_of_hexDigit? {c : Char} {d : Nat} (h : hexDigit? c = some d) : isHex c = true := by
  unfold hexDigit? at h
  unfold isHex Char.isDigit
  split_ifs at h with hdigit hlower hupper
  · simp_all [Char.le_def]
  · simp_all
  · simp_all

theorem isHex_of_unitFrom? {value unit : Nat} {digits : List Char}
    (h : unitFrom? value digits = some unit) : ∀ c ∈ digits, isHex c = true := by
  induction digits generalizing value with
  | nil => exact List.forall_mem_nil _
  | cons c digits ih =>
    obtain ⟨d, hd, hrest⟩ := Option.bind_eq_some_iff.mp h
    exact List.forall_mem_cons.mpr ⟨isHex_of_hexDigit? hd, ih hrest⟩

theorem IsCode.isCharacter {code : List Char} {unit : Nat} (h : IsCode code unit) :
    IsCharacter ('\\' :: 'u' :: code) := by
  obtain ⟨hlength, hunit⟩ := h
  match code, hlength with
  | [c₁, c₂, c₃, c₄], _ => exact .code (isHex_of_unitFrom? hunit)

/-- Content is made of characters. -/
theorem Content.exists_parts {text : List Char} (h : Content text) :
    ∃ parts : List (List Char), (∀ part ∈ parts, IsCharacter part) ∧ text = parts.flatten := by
  have hcons : ∀ {part rest : List Char}, IsCharacter part →
      (∃ parts : List (List Char), (∀ part ∈ parts, IsCharacter part) ∧ rest = parts.flatten) →
      ∃ parts : List (List Char), (∀ part ∈ parts, IsCharacter part) ∧
        part ++ rest = parts.flatten := by
    rintro part rest hpart ⟨parts, hparts, rfl⟩
    exact ⟨part :: parts, List.forall_mem_cons.mpr ⟨hpart, hparts⟩, rfl⟩
  induction h with
  | nil => exact ⟨[], List.forall_mem_nil _, rfl⟩
  | plain hcontrol hquote hslash _ ih => exact hcons (.plain hcontrol hquote hslash) ih
  | letter hc _ ih => exact hcons (.letter hc) ih
  | unit hcode _ _ _ ih => exact hcons hcode.isCharacter ih
  | pair hcode _ hcode' _ _ ih => exact hcons hcode.isCharacter (hcons hcode'.isCharacter ih)

/-- **A string that is read**: content between quotes. -/
def IsPaired (text : List Char) : Prop :=
  ∃ content, Content content ∧ text = '"' :: content ++ ['"']

theorem IsPaired.isQuoted {text : List Char} (h : IsPaired text) : IsQuoted text := by
  obtain ⟨content, hcontent, rfl⟩ := h
  obtain ⟨parts, hparts, rfl⟩ := hcontent.exists_parts
  exact ⟨parts, hparts, rfl⟩

end CallNames
