import CallNames.Document.Load
import CallNames.Proofs.Json.Brackets
import CallNames.Proofs.Json.Reading

/-!
# Loading a value from its text

A document can be handed over as a value or as text. **The two ways agree on the compact text of
every value that its text determines**, with one exception: text is refused unread if more than
2056 of its brackets are open at once, and the compact text of a value opens exactly as many as the
value nests.

* `ofText_of_nesting_le`, `ofText_of_lt_nesting`: the two sides of the cut;
* `tower n`: the value that nests `n` arrays and nothing else, on both sides of the cut.
-/

namespace CallNames

namespace Document

variable {v : Json}

/-- The count of brackets in the compact text of a value. -/
theorem nestsDeeper_compactText (v : Json) :
    nestsDeeper nestingLimit v.compactText.toList = decide (nestingLimit < v.nesting) := by
  rw [Json.compactText, String.toList_ofList, Json.nestsDeeper_compact]

/-- Text below the cut is loaded as the value that it was written from. -/
theorem ofText_of_nesting_le (hplain : v.isPlain = true) (h : v.nesting ≤ nestingLimit) :
    ofText v.compactText =
      ⟨(ofJson v).value.mapError .document, (ofJson v).events⟩ := by
  have hcount : nestsDeeper nestingLimit v.compactText.toList = false := by
    rw [nestsDeeper_compactText, decide_eq_false (Nat.not_lt.mpr h)]
  have hparse : Json.parse v.compactText = .ok v := by
    rw [Json.parse, Json.compactText, String.toList_ofList, Json.read_compact hplain]
  simp only [ofText, hcount, hparse]
  rfl

/-- Text above the cut is refused, whatever the value would be loaded as. -/
theorem ofText_of_lt_nesting (h : nestingLimit < v.nesting) :
    ofText v.compactText = ⟨.error .tooNested, []⟩ := by
  rw [ofText, nestsDeeper_compactText, decide_eq_true h, if_pos rfl]

/-- **Loading the compact text of a value is loading the value**, if the value nests at most 2056
    containers, with the same document or the same refusal and the same events; if it nests more,
    its text is refused as nesting beyond 2056 levels. -/
theorem ofText_compactText (hplain : v.isPlain = true) :
    (v.nesting ≤ 2056 →
      ofText v.compactText = ⟨(ofJson v).value.mapError .document, (ofJson v).events⟩) ∧
    (2056 < v.nesting → ofText v.compactText = ⟨.error .tooNested, []⟩) ∧
    LoadError.tooNested.message = "JSON nesting exceeds 2056 levels" :=
  ⟨ofText_of_nesting_le hplain, ofText_of_lt_nesting, by decide⟩

/-- An identifier whose name is full of quotes, backslashes and brackets. -/
def bracketName : Json := .obj [("type", .str "Identifier"), ("name", .str "[\"\x7b\\\"[")]

/-- So many arrays inside each other. -/
def tower : Nat → Json
  | 0 => .null
  | n + 1 => .arr [tower n]

theorem nesting_tower (n : Nat) : (tower n).nesting = n := by
  induction n with
  | zero => rfl
  | succ n ih => rw [tower, Json.nesting, Json.nestingItems, Json.nestingItems, ih, Nat.max_zero,
      Nat.add_comm]

theorem isPlain_tower (n : Nat) : (tower n).isPlain = true := by
  induction n with
  | zero => rfl
  | succ n ih => rw [tower, Json.isPlain, Json.isPlainItems, Json.isPlainItems, ih, Bool.and_true]

theorem ofJson_tower (n : Nat) : (ofJson (tower n)).value = .error ⟨[], .notANode⟩ := by
  cases n <;> rfl

/-- The name is loaded from text as from the value, and the cut lies between two towers. -/
theorem bracketName_tower_ofText :
    (bracketName.isPlain = true ∧ bracketName.nesting ≤ 2056 ∧
      (ofText bracketName.compactText).value =
        .ok ⟨⟨#[{ form := .identifier "[\"\x7b\\\"[" }]⟩, 0⟩) ∧
    ((tower 2056).isPlain = true ∧ (tower 2056).nesting ≤ 2056 ∧
      (ofText (tower 2056).compactText).value =
        .error (.document ⟨[], .notANode⟩)) ∧
    ((tower 2057).isPlain = true ∧ 2056 < (tower 2057).nesting ∧
      (ofText (tower 2057).compactText).value = .error .tooNested) := by
  have hname : bracketName.isPlain = true := by decide
  have hshallow : bracketName.nesting ≤ 2056 := by decide
  have hbelow : (tower 2056).nesting ≤ 2056 := Nat.le_of_eq (nesting_tower 2056)
  have habove : 2056 < (tower 2057).nesting := Nat.lt_of_lt_of_eq (by decide) (nesting_tower 2057).symm
  refine ⟨⟨hname, hshallow, ?_⟩, ⟨isPlain_tower 2056, hbelow, ?_⟩, ⟨isPlain_tower 2057, habove, ?_⟩⟩
  · rw [(ofText_compactText hname).1 hshallow]
    decide +kernel
  · rw [(ofText_compactText (isPlain_tower 2056)).1 hbelow, ofJson_tower]
    rfl
  · rw [(ofText_compactText (isPlain_tower 2057)).2.1 habove]

end Document

end CallNames
