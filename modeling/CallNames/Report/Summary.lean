import CallNames.Report.Basic

/-!
# Counting calls by name

The calls of several reports are counted by qualified name. **The most frequent names come first,
and names that are equally frequent in the order of their characters.** Calls without a name are
counted under a name of their own.
-/

namespace CallNames

/-- The name that stands for calls without a name. -/
def unnamed : String := "<unnamed>"

/-- A name as it is shown. -/
def shownName (name : String) : String := if name.isEmpty then unnamed else name

namespace SummaryEntry

/-- Whether an entry may stand before another one. -/
def before (a b : SummaryEntry) : Bool :=
  b.count < a.count || (a.count = b.count && a.name ≤ b.name)

/-- The names under which the calls of some reports are counted, call by call. -/
def keys (reports : List FileReport) : List String :=
  reports.flatMap fun r => r.calls.map fun c => shownName c.fullName

/-- **The number of calls of each name.** -/
def ofReports (reports : List FileReport) : List SummaryEntry :=
  let ks := keys reports
  (ks.eraseDups.map fun k => ⟨k, ks.count k⟩).mergeSort before

end SummaryEntry

end CallNames
