import CallNames.Report.Summary
import Mathlib.Data.List.Perm.Basic

/-!
# Counting calls, whatever their order

An entry stands before another one by its count and then by its name, and **the order of two
different entries is never open** (`before_antisymm`). So a summary depends on the names only as
often as they occur: reports in another order have the same summary (`ofReports_eq_of_perm`).
-/

namespace CallNames

namespace SummaryEntry

/-! ## 1. The order of entries -/

theorem before_iff {a b : SummaryEntry} :
    before a b = true ↔ b.count < a.count ∨ a.count = b.count ∧ a.name ≤ b.name := by
  rw [before, Bool.or_eq_true, Bool.and_eq_true, decide_eq_true_iff, decide_eq_true_iff,
    decide_eq_true_iff]

theorem before_trans (a b c : SummaryEntry) (hab : before a b = true) (hbc : before b c = true) :
    before a c = true := by
  rw [before_iff] at hab hbc ⊢
  rcases hab with hlt | ⟨heq, hname⟩
  · exact .inl (by omega)
  · rcases hbc with hlt' | ⟨heq', hname'⟩
    · exact .inl (by omega)
    · exact .inr ⟨heq.trans heq', String.le_trans hname hname'⟩

theorem before_total (a b : SummaryEntry) : (before a b || before b a) = true := by
  rw [Bool.or_eq_true, before_iff, before_iff]
  rcases Nat.lt_trichotomy a.count b.count with hlt | heq | hgt
  · exact .inr (.inl hlt)
  · rcases String.le_total a.name b.name with hname | hname
    · exact .inl (.inr ⟨heq, hname⟩)
    · exact .inr (.inr ⟨heq.symm, hname⟩)
  · exact .inl (.inl hgt)

theorem before_antisymm {a b : SummaryEntry} (hab : before a b = true) (hba : before b a = true) :
    a = b := by
  rw [before_iff] at hab hba
  have hcount : a.count = b.count := by omega
  have hname : a.name = b.name :=
    String.le_antisymm (hab.resolve_left (by omega)).2 (hba.resolve_left (by omega)).2
  cases a
  cases b
  exact congrArg₂ SummaryEntry.mk hname hcount

/-! ## 2. Entries -/

/-- The entries for some names, each name once. -/
def tally (ks : List String) : List SummaryEntry := ks.eraseDups.map fun k => ⟨k, ks.count k⟩

theorem ofReports_eq (reports : List FileReport) :
    ofReports reports = (tally (keys reports)).mergeSort before := rfl

theorem nodup_eraseDups (ks : List String) : ks.eraseDups.Nodup := by
  induction h : ks.length using Nat.strongRecOn generalizing ks with
  | ind n ih =>
    cases ks with
    | nil => exact List.nodup_nil
    | cons k ks =>
      have hlength := List.length_filter_le (fun b => !b == k) ks
      rw [List.length_cons] at h
      rw [List.eraseDups_cons, List.nodup_cons, List.mem_eraseDups]
      refine ⟨?_, ih _ (by omega) _ rfl⟩
      simp

/-- The same names, in another order, have the same entries in another order. -/
theorem tally_perm {ks ks' : List String} (h : ks.Perm ks') : (tally ks).Perm (tally ks') := by
  have hnames : ks.eraseDups.Perm ks'.eraseDups := by
    rw [List.perm_ext_iff_of_nodup (nodup_eraseDups ks) (nodup_eraseDups ks')]
    intro k
    rw [List.mem_eraseDups, List.mem_eraseDups, h.mem_iff]
  have hcounts : (fun k => (⟨k, ks.count k⟩ : SummaryEntry)) = fun k => ⟨k, ks'.count k⟩ := by
    funext k
    rw [h.count_eq]
  unfold tally
  rw [hcounts]
  exact hnames.map _

/-- **Reports with the same names, each as often, have the same summary.** -/
theorem ofReports_eq_of_keys_perm {reports reports' : List FileReport}
    (h : (keys reports).Perm (keys reports')) : ofReports reports = ofReports reports' := by
  have hentries : (ofReports reports).Perm (ofReports reports') := by
    rw [ofReports_eq, ofReports_eq]
    exact (List.mergeSort_perm _ _).trans ((tally_perm h).trans (List.mergeSort_perm _ _).symm)
  exact List.Perm.eq_of_pairwise (fun a b _ _ => before_antisymm)
    (List.pairwise_mergeSort before_trans before_total _)
    (List.pairwise_mergeSort before_trans before_total _) hentries

/-- **Reports in another order have the same summary.** -/
theorem ofReports_eq_of_perm {reports reports' : List FileReport} (h : reports.Perm reports') :
    ofReports reports = ofReports reports' :=
  ofReports_eq_of_keys_perm (h.flatMap_right _)

/-- No count exceeds the number of calls. -/
theorem count_le_of_mem {reports : List FileReport} {e : SummaryEntry}
    (h : e ∈ ofReports reports) : e.count ≤ (keys reports).length := by
  rw [ofReports_eq, List.mem_mergeSort] at h
  obtain ⟨k, _, rfl⟩ := List.mem_map.mp h
  exact List.count_le_length

end SummaryEntry

end CallNames
