/-!
# The largest of some numbers

The width of an arena, the width of a column and the nesting of a value are each the largest of the
numbers that belong to the items of a list. **It bounds all of them and is one of them.**
-/

namespace CallNames

variable {α : Type} {f : α → Nat} {xs : List α}

theorem le_foldr_max {x : α} (h : x ∈ xs) : f x ≤ xs.foldr (fun x m => max (f x) m) 0 := by
  induction xs with
  | nil => cases h
  | cons y ys ih =>
    rw [List.foldr_cons]
    rcases List.mem_cons.mp h with rfl | hys
    · exact Nat.le_max_left _ _
    · exact Nat.le_trans (ih hys) (Nat.le_max_right _ _)

theorem exists_foldr_max (h : xs ≠ []) :
    ∃ x ∈ xs, f x = xs.foldr (fun x m => max (f x) m) 0 := by
  induction xs with
  | nil => exact absurd rfl h
  | cons y ys ih =>
    rw [List.foldr_cons]
    by_cases hy : ys.foldr (fun x m => max (f x) m) 0 ≤ f y
    · exact ⟨y, List.mem_cons_self, (Nat.max_eq_left hy).symm⟩
    · have hys : ys ≠ [] := by
        intro e
        rw [e] at hy
        exact hy (Nat.zero_le _)
      obtain ⟨x, hx, hmax⟩ := ih hys
      exact ⟨x, List.mem_cons_of_mem y hx, by rw [hmax, Nat.max_eq_right (by omega)]⟩

end CallNames
