import CallNames.Json.Nesting
import CallNames.Proofs.Json.Parts

/-!
# The brackets of a written value

The count of brackets looks at a text character by character and knows nothing of values. Here it
is tied to the nesting of the value that was written.

* `exceeds_iff`: a text exceeds a limit if more brackets than that are open after some of it;
* `Spans quoted text peak`: a text leaves the count as it was, inside quoted text or outside, and
  **opens `peak` brackets more, but never more than that**. Texts are put together from such parts;
* `Json.nesting` is how deeply a value nests, and `nestsDeeper_compact` says that **the count of its
  compact text is exactly this**, whatever stands in its strings and keys.
-/

namespace CallNames

/-! ## 1. The count along a text -/

namespace BracketCount

theorem exceeds_of_lt {limit : Nat} {b : BracketCount} (h : limit < b.depth) (text : List Char) :
    exceeds limit b text = true := by
  cases text <;> simp [exceeds, h]

/-- A text exceeds a limit if more brackets are open after some of it. -/
theorem exceeds_iff {limit : Nat} {b : BracketCount} {text : List Char} :
    exceeds limit b text = true ↔ ∃ p, p <+: text ∧ limit < (p.foldl next b).depth := by
  induction text generalizing b with
  | nil => simp [exceeds]
  | cons c text ih =>
    rw [exceeds, Bool.or_eq_true, decide_eq_true_iff, ih]
    constructor
    · intro h
      rcases h with hnow | ⟨p, hp, hlater⟩
      · exact ⟨[], List.nil_prefix, hnow⟩
      · exact ⟨c :: p, List.cons_prefix_cons.mpr ⟨rfl, hp⟩, hlater⟩
    · intro h
      obtain ⟨p, hp, hlt⟩ := h
      rcases List.prefix_cons_iff.mp hp with rfl | ⟨q, rfl, hq⟩
      · exact .inl hlt
      · exact .inr ⟨q, hq, hlt⟩

theorem exceeds_append (limit : Nat) (b : BracketCount) (s t : List Char) :
    exceeds limit b (s ++ t) = (exceeds limit b s || exceeds limit (s.foldl next b) t) := by
  induction s generalizing b with
  | nil =>
    rw [List.nil_append, exceeds, List.foldl_nil]
    by_cases h : limit < b.depth
    · rw [exceeds_of_lt h, Bool.or_true]
    · rw [decide_eq_false h, Bool.false_or]
  | cons c s ih => rw [List.cons_append, exceeds, exceeds, ih, List.foldl_cons, Bool.or_assoc]

/-- The characters that change the count outside quoted text. -/
def isMark (c : Char) : Bool := c = '"' || c = '{' || c = '[' || c = '}' || c = ']'

theorem isMark_cases {c : Char} (h : isMark c = true) :
    c = '"' ∨ c = '{' ∨ c = '[' ∨ c = '}' ∨ c = ']' := by
  simpa only [isMark, Bool.or_eq_true, decide_eq_true_eq, or_assoc] using h

theorem next_of_not_mark {c : Char} (h : isMark c = false) (d : Nat) :
    next ⟨d, false, false⟩ c = ⟨d, false, false⟩ := by
  simp only [isMark, Bool.or_eq_false_iff, decide_eq_false_iff_not] at h
  simp [next, h]

/-- Inside quoted text, only the quote and the backslash change the count. -/
theorem next_quoted {c : Char} (hquote : c ≠ '"') (hbackslash : c ≠ '\\') (d : Nat) :
    next ⟨d, true, false⟩ c = ⟨d, true, false⟩ := by
  simp [next, hquote, hbackslash]

end BracketCount

/-! ## 2. Texts that leave the count as it was -/

open BracketCount

/-- **A text that leaves the count as it was**, with the most brackets that it opens at once. -/
structure Spans (quoted : Bool) (text : List Char) (peak : Nat) : Prop where
  /-- At the end, all that was opened has been closed. -/
  settled : ∀ d, text.foldl next ⟨d, quoted, false⟩ = ⟨d, quoted, false⟩
  /-- On the way, so many brackets are opened at once, and no more. -/
  peaks : ∀ limit d, exceeds limit ⟨d, quoted, false⟩ text = decide (limit < d + peak)

namespace Spans

variable {quoted inner : Bool} {text s t : List Char} {k m : Nat}

theorem nil : Spans quoted [] 0 where
  settled _ := rfl
  peaks _ _ := rfl

theorem append (hs : Spans quoted s k) (ht : Spans quoted t m) :
    Spans quoted (s ++ t) (max k m) where
  settled d := by rw [List.foldl_append, hs.settled, ht.settled]
  peaks limit d := by
    rw [exceeds_append, hs.settled, hs.peaks, ht.peaks, ← Bool.decide_or, decide_eq_decide]
    omega

/-- A character that changes nothing may stand in front. -/
theorem cons {c : Char} (hc : ∀ d, next ⟨d, quoted, false⟩ c = ⟨d, quoted, false⟩)
    (ht : Spans quoted t k) : Spans quoted (c :: t) k where
  settled d := by rw [List.foldl_cons, hc, ht.settled]
  peaks limit d := by
    rw [exceeds, hc, ht.peaks, ← Bool.decide_or, decide_eq_decide]
    show limit < d ∨ limit < d + k ↔ limit < d + k
    omega

/-- A text without marks opens nothing. -/
theorem of_not_mark (h : text.any isMark = false) : Spans false text 0 := by
  induction text with
  | nil => exact nil
  | cons c text ih =>
    rw [List.any_cons, Bool.or_eq_false_iff] at h
    exact (ih h.2).cons (next_of_not_mark h.1)

/-- What stands between two characters that open and close it is opened by the first as well. -/
theorem enclosed {opening closing : Char} (levels : Nat)
    (hopening : ∀ d, next ⟨d, quoted, false⟩ opening = ⟨d + levels, inner, false⟩)
    (hclosing : ∀ d, next ⟨d + levels, inner, false⟩ closing = ⟨d, quoted, false⟩)
    (h : Spans inner text k) : Spans quoted (opening :: text ++ [closing]) (k + levels) := by
  have hfold : ∀ d, (opening :: text).foldl next ⟨d, quoted, false⟩ = ⟨d + levels, inner, false⟩ := by
    intro d
    rw [List.foldl_cons, hopening, h.settled]
  constructor
  · intro d
    rw [List.foldl_append, hfold, List.foldl_cons, hclosing, List.foldl_nil]
  · intro limit d
    rw [exceeds_append, hfold, exceeds, hopening, h.peaks, exceeds, hclosing, exceeds]
    simp only [← Bool.decide_or, decide_eq_decide]
    omega

theorem array (h : Spans false text k) : Spans false ('[' :: text ++ [']']) (k + 1) :=
  h.enclosed 1 (fun _ => rfl) (fun _ => rfl)

theorem object (h : Spans false text k) : Spans false ('{' :: text ++ ['}']) (k + 1) :=
  h.enclosed 1 (fun _ => rfl) (fun _ => rfl)

/-- Parts between commas open what the deepest of them opens. -/
theorem joinComma {α : Type} (write : α → List Char) (peak : α → Nat) (xs : List α)
    (h : ∀ x ∈ xs, Spans false (write x) (peak x)) :
    Spans false (Json.joinComma (xs.map write)) (xs.foldr (fun x m => max (peak x) m) 0) := by
  cases xs with
  | nil => exact nil
  | cons x xs =>
    rw [List.map_cons, Json.joinComma_cons, List.foldr_cons]
    refine (h x List.mem_cons_self).append ?_
    replace h : ∀ y ∈ xs, Spans false (write y) (peak y) :=
      fun y hy => h y (List.mem_cons_of_mem x hy)
    induction xs with
    | nil => exact nil
    | cons y ys ih =>
      rw [List.map_cons, List.flatMap_cons, List.foldr_cons]
      refine append ((h y List.mem_cons_self).cons (next_of_not_mark rfl)) ?_
      exact ih fun z hz => h z (List.mem_cons_of_mem y hz)

/-! ## 3. Strings and numbers -/

theorem hexChar_ne : ∀ n < 16, hexChar n ≠ '"' ∧ hexChar n ≠ '\\' := by decide

/-- An escape leaves the count inside the quoted text, whatever is escaped. -/
theorem escape (c : Char) : Spans true ['\\', c] 0 where
  settled _ := rfl
  peaks limit d := by
    show (decide (limit < d) || (decide (limit < d) || decide (limit < d))) = _
    simp

theorem encodeChar (c : Char) : Spans true (Quoted.encodeChar c) 0 := by
  unfold Quoted.encodeChar
  split
  · exact escape '"'
  · rename_i hquote
    split
    · exact escape '\\'
    · rename_i hbackslash
      split
      · exact escape _
      · split
        · rename_i hcontrol
          have hhigh := hexChar_ne (c.toNat / 16) (by omega)
          have hlow := hexChar_ne (c.toNat % 16) (by omega)
          have hdigits : Spans true ['0', '0', hexChar (c.toNat / 16), hexChar (c.toNat % 16)] 0 :=
            (((nil.cons (next_quoted hlow.1 hlow.2)).cons (next_quoted hhigh.1 hhigh.2)).cons
              (next_quoted (by decide) (by decide))).cons (next_quoted (by decide) (by decide))
          exact (escape 'u').append hdigits
        · exact nil.cons (next_quoted hquote hbackslash)

/-- **A quoted text opens nothing**, whatever brackets, quotes and backslashes it holds. -/
theorem encode (s : String) : Spans false (Quoted.encode s) 0 := by
  have hbody : ∀ cs : List Char, Spans true (cs.flatMap Quoted.encodeChar) 0 := by
    intro cs
    induction cs with
    | nil => exact nil
    | cons c cs ih => exact (encodeChar c).append ih
  exact (hbody s.toList).enclosed 0 (fun _ => rfl) (fun _ => rfl)

end Spans

/-- The characters of a written number. -/
def isNumeric (c : Char) : Bool := c.isDigit || c = '-' || c = '+' || c = '.' || c = 'e'

theorem isMark_of_isNumeric {c : Char} (h : isNumeric c = true) : isMark c = false := by
  cases hm : isMark c with
  | false => rfl
  | true => rcases isMark_cases hm with rfl | rfl | rfl | rfl | rfl <;> exact absurd h (by decide)

/-- A text of which every character may stand in a number. -/
def Numeric (text : List Char) : Prop := ∀ c ∈ text, isNumeric c = true

namespace Numeric

variable {s t : List Char} {c : Char}

theorem cons (hc : isNumeric c = true) (h : Numeric t) : Numeric (c :: t) :=
  List.forall_mem_cons.mpr ⟨hc, h⟩

theorem append (hs : Numeric s) (ht : Numeric t) : Numeric (s ++ t) :=
  List.forall_mem_append.mpr ⟨hs, ht⟩

theorem take (h : Numeric t) (k : Nat) : Numeric (t.take k) :=
  fun c hc => h c (List.mem_of_mem_take hc)

theorem drop (h : Numeric t) (k : Nat) : Numeric (t.drop k) :=
  fun c hc => h c (List.mem_of_mem_drop hc)

theorem zeros (k : Nat) : Numeric (List.replicate k '0') := by
  intro c hc
  rw [List.eq_of_mem_replicate hc]
  rfl

theorem natText (n : Nat) : Numeric (natText n) := by
  intro c hc
  have hdigit := Nat.isDigit_of_mem_toDigits (by decide) (by decide) hc
  rw [isNumeric, hdigit]
  rfl

theorem decimal (d : Decimal) : Numeric d.write := by
  have hdigits := natText d.digits
  dsimp only [Decimal.write]
  split
  · split
    · exact cons rfl (cons rfl ((zeros _).append hdigits))
    · split
      · exact (hdigits.append (zeros _)).append (cons rfl (cons rfl (List.forall_mem_nil _)))
      · exact (hdigits.take _).append (cons rfl (hdigits.drop _))
  · refine ((hdigits.take 1).append ?_).append (cons rfl (cons ?_ (natText _)))
    · split
      · exact List.forall_mem_nil _
      · exact cons rfl (hdigits.drop 1)
    · split <;> rfl

theorem any_isMark (h : Numeric t) : t.any isMark = false := by
  rw [List.any_eq_false]
  intro c hc
  rw [isMark_of_isNumeric (h c hc)]
  exact Bool.false_ne_true

theorem number (n : Number) : Numeric n.write := by
  cases n with
  | int i =>
    show Numeric (intText i)
    unfold intText
    split
    · exact cons rfl (natText _)
    · exact natText _
  | real x =>
    have hmagnitude : Numeric (if x.mantissa = 0 then ['0', '.', '0'] else x.shortest.write) := by
      split
      · exact cons rfl (cons rfl (cons rfl (List.forall_mem_nil _)))
      · exact decimal _
    show Numeric (if x.negative then '-' :: _ else _)
    cases x.negative with
    | false => exact hmagnitude
    | true => exact cons rfl hmagnitude

end Numeric

/-! ## 4. Values -/

namespace Json

mutual

/-- **How deeply a value nests its containers**: 0 for anything else, and one more than the deepest
    of its members for a container. -/
def nesting : Json → Nat
  | .arr items => 1 + nestingItems items
  | .obj fields => 1 + nestingFields fields
  | _ => 0

/-- The nesting of the deepest item. -/
def nestingItems : List Json → Nat
  | [] => 0
  | v :: rest => max (nesting v) (nestingItems rest)

/-- The nesting of the deepest field. -/
def nestingFields : List (String × Json) → Nat
  | [] => 0
  | (_, v) :: rest => max (nesting v) (nestingFields rest)

end

theorem nestingItems_eq_foldr (items : List Json) :
    nestingItems items = items.foldr (fun v m => max v.nesting m) 0 := by
  induction items with
  | nil => rfl
  | cons v rest ih => rw [nestingItems, ih, List.foldr_cons]

theorem nestingFields_eq_foldr (fields : Fields) :
    nestingFields fields = fields.foldr (fun f m => max f.2.nesting m) 0 := by
  induction fields with
  | nil => rfl
  | cons f rest ih => rw [nestingFields, ih, List.foldr_cons]

/-- The compact text of a value opens as many brackets at once as the value nests. -/
theorem spans_compact (v : Json) : Spans false v.compact v.nesting := by
  induction v using Json.induction with
  | null => exact .of_not_mark rfl
  | bool b => cases b <;> exact .of_not_mark rfl
  | num n => exact .of_not_mark (Numeric.number n).any_isMark
  | str s => exact .encode s
  | arr items ih =>
    rw [compact, compactItems_eq_map, nesting, nestingItems_eq_foldr, Nat.add_comm]
    exact (Spans.joinComma compact nesting items ih).array
  | obj fields ih =>
    have hfield : ∀ f ∈ fields, Spans false (fieldText f) f.2.nesting := by
      intro f hf
      have hvalue := (ih f hf).cons (next_of_not_mark (c := ':') rfl)
      have hjoined := (Spans.encode f.1).append hvalue
      rw [Nat.zero_max] at hjoined
      exact hjoined
    rw [compact, compactFields_eq_map, nesting, nestingFields_eq_foldr, Nat.add_comm]
    exact (Spans.joinComma fieldText (fun f => f.2.nesting) fields hfield).object

/-- **The count of a compact text is exact**: it exceeds a limit exactly if the value nests more
    deeply. -/
theorem nestsDeeper_compact (limit : Nat) (v : Json) :
    nestsDeeper limit v.compact = decide (limit < v.nesting) := by
  have hpeaks := (spans_compact v).peaks limit 0
  rw [Nat.zero_add] at hpeaks
  exact hpeaks

end Json

end CallNames
