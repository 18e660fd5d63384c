import CallNames.Proofs.Report.ByteOrder
import CallNames.Proofs.Report.Summary
import Mathlib.Algebra.BigOperators.Group.List.Basic
import Mathlib.Algebra.GroupWithZero.Nat
import Mathlib.Data.Finmap
import Mathlib.Data.List.Dedup
import Mathlib.Data.List.Induction

/-!
# The summary as a histogram

A summary counts the calls of all reports by name.

* `IsHistogram` says what that means: which names are listed, how often each is counted, and in
  which order they stand. **One list only is a histogram of given reports**, and the summary is it;
* `tallied` is counting itself, call by call, in a map that keeps its entries in no order at all.
  `perm_tally_of_entries`: however they are listed afterwards, they are the entries of the summary;
* `ofReports_unique_histogram` puts this together with what does not matter: the order of the
  reports, the order of the calls, and which report has which of them.
-/

namespace CallNames

/-! ## 1. Histograms -/

/-- The calls of several reports, in order. -/
def FileReport.callsOf (reports : List FileReport) : List CallReport :=
  reports.flatMap FileReport.calls

/-- **The name under which a call is counted**: its qualified name, or one that stands for none. -/
def CallReport.countedAs (c : CallReport) : String :=
  if c.fullName = "" then "<unnamed>" else c.fullName

namespace SummaryEntry

open FileReport (callsOf)

/-- **An entry comes before another one**: it counts more calls, or as many under a smaller name,
    byte by byte. -/
def Precedes (e f : SummaryEntry) : Prop :=
  f.count < e.count ∨ e.count = f.count ∧ utf8Bytes e.name < utf8Bytes f.name

instance (e f : SummaryEntry) : Decidable (Precedes e f) :=
  inferInstanceAs (Decidable (_ ∨ _ ∧ _))

/-- **A histogram of the calls of some reports.** -/
structure IsHistogram (reports : List FileReport) (es : List SummaryEntry) : Prop where
  distinct : (es.map SummaryEntry.name).Nodup
  named : ∀ e ∈ es, e.name ≠ ""
  /-- A name is listed if some call is counted under it. -/
  listed : ∀ k, k ∈ es.map SummaryEntry.name ↔ ∃ c ∈ callsOf reports, c.countedAs = k
  /-- A count is the number of calls. -/
  counted : ∀ e ∈ es, e.count = (callsOf reports).countP fun c => c.countedAs = e.name
  ordered : es.Pairwise Precedes

theorem countedAs_eq (c : CallReport) : c.countedAs = shownName c.fullName := by
  unfold CallReport.countedAs shownName unnamed
  by_cases h : c.fullName = "" <;> simp [h]

theorem countedAs_ne_empty (c : CallReport) : c.countedAs ≠ "" := by
  unfold CallReport.countedAs
  split
  · decide
  · assumption

/-- The names that are counted are those of the calls. -/
theorem keys_eq (reports : List FileReport) :
    keys reports = (callsOf reports).map CallReport.countedAs := by
  have hkey : CallReport.countedAs = fun c => shownName c.fullName := funext countedAs_eq
  rw [callsOf, List.map_flatMap, hkey]
  rfl

theorem count_keys (reports : List FileReport) (k : String) :
    (keys reports).count k = (callsOf reports).countP fun c => c.countedAs = k := by
  rw [keys_eq, List.count, List.countP_map]
  refine List.countP_congr fun c _ => ?_
  simp

theorem mem_tally {ks : List String} {e : SummaryEntry} :
    e ∈ tally ks ↔ e.name ∈ ks ∧ e.count = ks.count e.name := by
  unfold tally
  rw [List.mem_map]
  constructor
  · rintro ⟨k, hk, rfl⟩
    exact ⟨List.mem_eraseDups.mp hk, rfl⟩
  · rintro ⟨hname, hcount⟩
    exact ⟨e.name, List.mem_eraseDups.mpr hname, by rw [← hcount]⟩

theorem map_name_tally (ks : List String) : (tally ks).map SummaryEntry.name = ks.eraseDups := by
  rw [tally, List.map_map]
  exact List.map_id _

theorem nodup_tally (ks : List String) : (tally ks).Nodup := by
  have hnames := nodup_eraseDups ks
  rw [← map_name_tally] at hnames
  exact hnames.of_map _

/-- Coming before another entry is the order of the summary without equality. -/
theorem precedes_iff {e f : SummaryEntry} : Precedes e f ↔ before e f = true ∧ e ≠ f := by
  rw [before_iff, Precedes, utf8Bytes_lt_iff]
  constructor
  · rintro (hcount | ⟨hcount, hname⟩)
    · exact ⟨.inl hcount, fun e => absurd hcount (e ▸ Nat.lt_irrefl _)⟩
    · exact ⟨.inr ⟨hcount, hname.le⟩, fun e => absurd hname (e ▸ lt_irrefl _)⟩
  · rintro ⟨hcount | ⟨hcount, hname⟩, hne⟩
    · exact .inl hcount
    · refine .inr ⟨hcount, lt_of_le_of_ne hname fun hsame => hne ?_⟩
      cases e
      cases f
      exact congrArg₂ SummaryEntry.mk hsame hcount

/-! ## 2. The summary -/

/-- **Whatever has the entries of the summary, in its order, is the summary.** -/
theorem eq_ofReports {reports : List FileReport} {es : List SummaryEntry}
    (hentries : es.Perm (tally (keys reports)))
    (hordered : es.Pairwise fun e f => before e f = true) : es = ofReports reports := by
  rw [ofReports_eq]
  exact List.Perm.eq_of_pairwise (fun _ _ _ _ => before_antisymm) hordered
    (List.pairwise_mergeSort before_trans before_total _)
    (hentries.trans (List.mergeSort_perm _ _).symm)

/-- A histogram has the entries of the summary. -/
theorem IsHistogram.perm_tally {reports : List FileReport} {es : List SummaryEntry}
    (h : IsHistogram reports es) : es.Perm (tally (keys reports)) := by
  rw [List.perm_ext_iff_of_nodup (h.distinct.of_map _) (nodup_tally _)]
  have hkeys : ∀ k, k ∈ keys reports ↔ k ∈ es.map SummaryEntry.name := by
    intro k
    rw [h.listed, keys_eq, List.mem_map]
  intro e
  rw [mem_tally, hkeys, count_keys]
  constructor
  · intro he
    exact ⟨List.mem_map_of_mem he, h.counted e he⟩
  · rintro ⟨hname, hcount⟩
    obtain ⟨f, hf, hsame⟩ := List.mem_map.mp hname
    have heq : f = e := by
      have hcounts := h.counted f hf
      rw [hsame, ← hcount] at hcounts
      cases e
      cases f
      exact congrArg₂ SummaryEntry.mk hsame hcounts
    exact heq ▸ hf

/-- **The summary is a histogram.** -/
theorem isHistogram_ofReports (reports : List FileReport) :
    IsHistogram reports (ofReports reports) := by
  have hperm : (ofReports reports).Perm (tally (keys reports)) := List.mergeSort_perm _ _
  have hnames : ((ofReports reports).map SummaryEntry.name).Perm (keys reports).eraseDups := by
    rw [← map_name_tally]
    exact hperm.map _
  have hlisted : ∀ k, k ∈ (ofReports reports).map SummaryEntry.name ↔
      ∃ c ∈ callsOf reports, c.countedAs = k := by
    intro k
    rw [hnames.mem_iff, List.mem_eraseDups, keys_eq, List.mem_map]
  refine ⟨hnames.nodup_iff.mpr (nodup_eraseDups _), fun e he => ?_, hlisted, fun e he => ?_, ?_⟩
  · obtain ⟨c, _, hc⟩ := (hlisted e.name).mp (List.mem_map_of_mem he)
    exact hc ▸ countedAs_ne_empty c
  · rw [← count_keys]
    exact (mem_tally.mp (hperm.mem_iff.mp he)).2
  · -- no entry stands there twice, so the order is strict
    have hsorted : (ofReports reports).Pairwise fun e f => before e f = true :=
      List.pairwise_mergeSort before_trans before_total _
    have hnodup : (ofReports reports).Nodup := hperm.nodup_iff.mpr (nodup_tally _)
    exact (hsorted.and hnodup).imp fun h => precedes_iff.mpr h

/-- The counts of a summary add up to the number of calls. -/
theorem sum_counts (reports : List FileReport) :
    ((ofReports reports).map SummaryEntry.count).sum = (callsOf reports).length := by
  have hperm : (ofReports reports).Perm (tally (keys reports)) := List.mergeSort_perm _ _
  have hdedup : (keys reports).eraseDups.Perm (keys reports).dedup := by
    rw [List.perm_ext_iff_of_nodup (nodup_eraseDups _) (List.nodup_dedup _)]
    intro k
    rw [List.mem_eraseDups, List.mem_dedup]
  calc ((ofReports reports).map SummaryEntry.count).sum
      = ((tally (keys reports)).map SummaryEntry.count).sum := (hperm.map _).sum_eq
    _ = ((keys reports).eraseDups.map fun k => (keys reports).count k).sum := by
        rw [tally, List.map_map]
        rfl
    _ = ((keys reports).dedup.map fun k => (keys reports).count k).sum := (hdedup.map _).sum_eq
    _ = (keys reports).length := List.sum_map_count_dedup_eq_length _
    _ = (callsOf reports).length := by rw [keys_eq, List.length_map]

/-! ## 3. Counting call by call -/

/-- A map from names to counts. Its entries are in no order. -/
abbrev Counts := Finmap fun _ : String => Nat

/-- Counts one call more under a name. -/
def Counts.bump (m : Counts) (k : String) : Counts := m.insert k ((m.lookup k).getD 0 + 1)

/-- **Counts calls one by one.** -/
def tallied (cs : List CallReport) : Counts :=
  cs.foldl (fun m c => m.bump c.countedAs) ∅

/-- One call more changes the count of its name only. -/
theorem Counts.lookup_bump (m : Counts) (k k' : String) :
    (m.bump k).lookup k' = if k' = k then some ((m.lookup k).getD 0 + 1) else m.lookup k' := by
  unfold bump
  split
  · rename_i h
    subst h
    exact Finmap.lookup_insert m
  · rename_i h
    exact Finmap.lookup_insert_of_ne m h

/-- **After some calls a name has its count**, if it has occurred. -/
theorem lookup_tallied (cs : List CallReport) (k : String) :
    (tallied cs).lookup k =
      if k ∈ cs.map CallReport.countedAs then some ((cs.map CallReport.countedAs).count k)
      else none := by
  induction cs using List.reverseRecOn generalizing k with
  | nil => rfl
  | append_singleton cs c ih =>
    have hstep : tallied (cs ++ [c]) = (tallied cs).bump c.countedAs := by
      rw [tallied, List.foldl_concat]
      rfl
    rw [hstep, Counts.lookup_bump, ih, ih, List.map_append, List.map_singleton, List.count_append]
    by_cases hk : k = c.countedAs
    · by_cases hmem : c.countedAs ∈ cs.map CallReport.countedAs
      · simp [hk, hmem]
      · simp [hk, hmem, List.count_eq_zero_of_not_mem hmem]
    · simp [hk, Ne.symm hk]

/-- An entry of such a map as an entry of a summary. -/
def ofPair (x : Σ _ : String, Nat) : SummaryEntry := ⟨x.1, x.2⟩

theorem ofPair_injective : Function.Injective ofPair := by
  rintro ⟨k, n⟩ ⟨k', n'⟩ h
  cases h
  rfl

/-- **However the map lists its entries, they are those of the summary.** -/
theorem perm_tally_of_entries {cs : List CallReport} {order : List (Σ _ : String, Nat)}
    (h : (order : Multiset (Σ _ : String, Nat)) = (tallied cs).entries) :
    (order.map ofPair).Perm (tally (cs.map CallReport.countedAs)) := by
  have hnodup : order.Nodup := by
    rw [← Multiset.coe_nodup, h]
    exact (tallied cs).nodup_entries
  rw [List.perm_ext_iff_of_nodup (hnodup.map ofPair_injective) (nodup_tally _)]
  rintro ⟨k, n⟩
  have hpair : ofPair ⟨k, n⟩ = ⟨k, n⟩ := rfl
  rw [← hpair, List.mem_map_of_injective ofPair_injective, ← Multiset.mem_coe, h,
    ← Finmap.lookup_eq_some_iff, lookup_tallied, mem_tally]
  simp [ofPair, eq_comm]

/-! ## 4. What a summary depends on -/

/-- **The summary is the histogram of its reports.** It is the only one; its counts add up to the
    number of calls; it stays the same if the reports are put into another order, or the calls into
    another order and other reports; and counting the calls one by one in a map and sorting what
    the map lists, in whatever order it does, leads to it. -/
theorem ofReports_unique_histogram (reports : List FileReport) :
    (∀ es, IsHistogram reports es ↔ es = ofReports reports) ∧
    ((ofReports reports).map SummaryEntry.count).sum = (callsOf reports).length ∧
    (∀ reports', reports'.Perm reports → ofReports reports' = ofReports reports) ∧
    (∀ reports', (callsOf reports').Perm (callsOf reports) →
      ofReports reports' = ofReports reports) ∧
    ∀ order : List (Σ _ : String, Nat),
      (order : Multiset (Σ _ : String, Nat)) = (tallied (callsOf reports)).entries →
      ∀ es, es.Perm (order.map ofPair) → es.Pairwise (fun e f => before e f = true) →
        es = ofReports reports := by
  refine ⟨fun es => ⟨fun h => ?_, fun e => e ▸ isHistogram_ofReports reports⟩, sum_counts reports,
    fun reports' h => ofReports_eq_of_perm h, fun reports' h => ?_,
    fun order horder es hes hsorted => ?_⟩
  · exact eq_ofReports h.perm_tally (h.ordered.imp fun h => (precedes_iff.mp h).1)
  · refine ofReports_eq_of_keys_perm ?_
    rw [keys_eq, keys_eq]
    exact h.map _
  · have hentries := hes.trans (perm_tally_of_entries horder)
    rw [← keys_eq] at hentries
    exact eq_ofReports hentries hsorted

/-- A call of a name, without anything else. -/
def callOfName (name : String) : CallReport := ⟨.call, {}, name, none, none, []⟩

/-- Two files, with nameless calls, a call of the name that stands for them, and two characters that
    16-bit units would put the other way round. -/
def mixedReports : List FileReport :=
  [⟨"a.json", ["f", "", "😀", "f"].map callOfName⟩,
    ⟨"b.json", ["<unnamed>", "｡", "", "f.g"].map callOfName⟩]

/-- Their summary. -/
def mixedSummary : List SummaryEntry :=
  [⟨"<unnamed>", 3⟩, ⟨"f", 2⟩, ⟨"f.g", 1⟩, ⟨"｡", 1⟩, ⟨"😀", 1⟩]

theorem isHistogram_mixedSummary : IsHistogram mixedReports mixedSummary where
  distinct := by decide
  named := by decide
  listed := by
    have hlisted : ∀ k ∈ mixedSummary.map SummaryEntry.name,
        k ∈ (callsOf mixedReports).map CallReport.countedAs := by decide
    have hcovers : ∀ k ∈ (callsOf mixedReports).map CallReport.countedAs,
        k ∈ mixedSummary.map SummaryEntry.name := by decide
    intro k
    rw [← List.mem_map]
    exact ⟨hlisted k, hcovers k⟩
  counted := by decide
  ordered := by decide +kernel

/-- Nameless calls are counted together with the calls of that name; moved to one file and turned
    round, the calls have the same summary. -/
theorem mixedReports_unique_histogram :
    mixedSummary = ofReports mixedReports ∧
    ofReports [⟨"c.json", (callsOf mixedReports).reverse⟩] = ofReports mixedReports := by
  obtain ⟨hunique, _, _, hcalls, _⟩ := ofReports_unique_histogram mixedReports
  refine ⟨(hunique _).mp isHistogram_mixedSummary, hcalls _ ?_⟩
  rw [callsOf, List.flatMap_singleton]
  exact List.reverse_perm _

end SummaryEntry

end CallNames
