import CallNames.Json.Basic
import CallNames.Node.Form

/-!
# Reports

What is said about the calls of a file, and how it is written as JSON. The fields of each record
are written in the order in which they are declared.
-/

namespace CallNames

/-! ## 1. Records -/

/-- An argument of a call: its name, empty if it has none, its type name, and whether it is an
    operand of the call. -/
structure ArgumentReport where
  name : String
  typeName : String
  operand : Bool
deriving DecidableEq, Repr, Inhabited

/-- A call or a construction: its place, the names of what is called, the name of the function
    around it, and its arguments. -/
structure CallReport where
  style : CallStyle
  span : Span
  fullName : String
  shortName : Option String
  enclosing : Option String
  arguments : List ArgumentReport
deriving DecidableEq, Repr, Inhabited

/-- The calls of a file. -/
structure FileReport where
  file : String
  calls : List CallReport
deriving DecidableEq, Repr, Inhabited

/-- How many calls have a name. -/
structure SummaryEntry where
  name : String
  count : Nat
deriving DecidableEq, Repr, Inhabited

/-! ## 2. As JSON -/

namespace ArgumentReport

/-- An argument as JSON. -/
def toJson (r : ArgumentReport) : Json :=
  .obj [("name", .str r.name), ("kind", .str r.typeName), ("operand", .bool r.operand)]

end ArgumentReport

namespace CallReport

/-- A call as JSON. -/
def toJson (r : CallReport) : Json :=
  .obj [("kind", .str r.style.kind.name), ("start", .ofNat r.span.pos), ("end", .ofNat r.span.stop),
    ("full_name", .str r.fullName), ("partial_name", .ofText? r.shortName),
    ("enclosing_function", .ofText? r.enclosing),
    ("arguments", .arr (r.arguments.map ArgumentReport.toJson))]

end CallReport

namespace FileReport

/-- A file's report as JSON. -/
def toJson (r : FileReport) : Json :=
  .obj [("file", .str r.file), ("calls", .arr (r.calls.map CallReport.toJson))]

/-- Several reports as JSON. -/
def listToJson (rs : List FileReport) : Json := .arr (rs.map toJson)

end FileReport

namespace SummaryEntry

/-- An entry as JSON. -/
def toJson (e : SummaryEntry) : Json := .obj [("name", .str e.name), ("count", .ofNat e.count)]

/-- A summary as JSON. -/
def listToJson (es : List SummaryEntry) : Json := .arr (es.map toJson)

end SummaryEntry

end CallNames
