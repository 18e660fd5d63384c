import CallNames.Log.Directive

/-!
# Which events are logged

A filter is a list of directives. **For an event the most specific directive that speaks about it
decides**: the longest target first, then one that asks for a field. An event without a directive
is not logged.

* directives are separated by commas, and those that cannot be read, or that ask for a span, are
  skipped;
* a directive whose words break a character makes the whole filter unusable, and nothing is logged;
* a filter without directives logs errors only, and so none of the events here.
-/

namespace CallNames

/-! ## 1. Filters -/

/-- A filter: its directives in order. -/
structure Filter where
  directives : List Directive
deriving DecidableEq, Repr, Inhabited

namespace Filter

/-- **Reads a filter**; `none` if it is unusable. Without a directive only errors are logged. -/
def parse? (s : String) : Option Filter :=
  let readings := (s.splitOn ",").map Directive.parse
  let directives := readings.filterMap Except.toOption
  if readings.any fun r => r matches .error .brokenCharacter then none
  else if directives.isEmpty then some ⟨[{ target := "", threshold := Level.error.rank }]⟩
  else some ⟨directives⟩

/-- The better of two directives for an event: the more specific one, else the later. -/
def prefer (e : Event) (best : Option Directive) (d : Directive) : Option Directive :=
  if ¬ d.covers e then best
  else match best with
    | none => some d
    | some b => if (b.compareTo d).isLE then some d else best

/-- The threshold for an event. -/
def threshold (f : Filter) (e : Event) : Threshold :=
  match f.directives.foldl (prefer e) none with
  | some d => d.threshold
  | none => 0

/-- **Whether an event is logged.** -/
def admits (f : Filter) (e : Event) : Bool := e.level.rank ≤ f.threshold e

end Filter

/-! ## 2. Settings -/

/-- What the environment says about the log: the program's own filter, the general one, and the
    word for the format. -/
structure LogSettings where
  ownFilter : Option String := none
  commonFilter : Option String := none
  format : Option String := none
deriving DecidableEq, Repr, Inhabited

namespace LogSettings

/-- The filter in force: the program's own one, even if it is empty, before the general one. -/
def filter? (s : LogSettings) : Option Filter :=
  (s.ownFilter.or s.commonFilter).bind Filter.parse?

/-- The events that are logged; none without a usable filter. -/
def logged (s : LogSettings) (events : List Event) : List Event :=
  match s.filter? with
  | some filter => events.filter filter.admits
  | none => []

/-- The format in force. -/
def logFormat (s : LogSettings) : LogFormat := LogFormat.ofWord (s.format.getD "")

end LogSettings

end CallNames
