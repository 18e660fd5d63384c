import CallNames.Report.Colour
import CallNames.Report.Summary

/-!
# Reports as text

* a file is a line with its name and then its calls;
* a call is a line with its place and names, and a line for each argument;
* a summary is a line for each entry, **with the counts aligned to the right**.
-/

namespace CallNames

/-! ## 1. Calls -/

namespace ArgumentReport

/-- The line of the argument with a number. An argument without a name is shown by its type. -/
def render (colour : Bool) (number : Nat) (r : ArgumentReport) : String :=
  let name := if r.name.isEmpty then r.typeName else r.name
  let flow :=
    if r.operand then Style.operand.paint colour "operand"
    else Style.nonOperand.paint colour "not operand"
  "      arg " ++ Nat.repr number ++ ": " ++ name ++ " (" ++ flow ++ ")\n"

end ArgumentReport

namespace CallReport

/-- What follows the name of a construction. -/
def styleMark : CallStyle → String
  | .call => ""
  | .construct => " (new)"

/-- The line of a call. -/
def headline (colour : Bool) (r : CallReport) : String :=
  let short :=
    match r.shortName with
    | some name => " [" ++ name ++ "]"
    | none => ""
  let enclosing :=
    match r.enclosing with
    | some name => " in " ++ Style.function.paint colour name
    | none => ""
  "  " ++ Nat.repr r.span.pos ++ ".." ++ Nat.repr r.span.stop ++ "  " ++
    Style.name.paint colour (shownName r.fullName) ++ styleMark r.style ++ short ++ enclosing ++
    "\n"

/-- The lines of a call. -/
def render (colour : Bool) (r : CallReport) : String :=
  r.headline colour ++
    String.join (r.arguments.zipIdx.map fun argument => argument.1.render colour argument.2)

end CallReport

namespace FileReport

/-- The lines of a file. -/
def render (colour : Bool) (r : FileReport) : String :=
  Style.file.paint colour r.file ++ "\n" ++ (if r.calls.isEmpty then "  (no calls)\n" else "") ++
    String.join (r.calls.map (CallReport.render colour))

/-- **The lines of several files**, one after the other. -/
def renderAll (colour : Bool) (rs : List FileReport) : String :=
  String.join (rs.map (render colour))

end FileReport

/-! ## 2. Summaries -/

namespace SummaryEntry

/-- The digits of a count. -/
def countText (e : SummaryEntry) : List Char := Nat.toDigits 10 e.count

/-- The width of the longest count. -/
def countWidth (es : List SummaryEntry) : Nat :=
  es.foldr (fun e w => max e.countText.length w) 0

/-- The line of an entry, its count filled up to a width. -/
def render (colour : Bool) (width : Nat) (e : SummaryEntry) : String :=
  String.ofList (List.replicate (width - e.countText.length) ' ' ++ e.countText) ++ "  " ++
    Style.name.paint colour (shownName e.name) ++ "\n"

/-- **The lines of a summary.** -/
def renderAll (colour : Bool) (es : List SummaryEntry) : String :=
  String.join (es.map (render colour (countWidth es)))

end SummaryEntry

end CallNames
