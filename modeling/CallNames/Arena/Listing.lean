import CallNames.Arena.Basic
import CallNames.Json.Basic

/-!
# Arenas as JSON

An arena is listed node by node. A node shows its kind, its place in the source, its parent, and
then its own fields; an absent child is shown by the number `Ref.absent`.
-/

namespace CallNames

namespace Ref

/-- A reference as it is stored. -/
def toJson (r : Ref) : Json := .ofNat (Ref.toNat r)

/-- A list of references as it is stored. -/
def listToJson (rs : List Ref) : Json := .obj [("nodes", .arr (rs.map toJson))]

end Ref

namespace Form

/-- The fields of a form, in the order of its slots. -/
def toFields : Form Nat → Fields
  | .program body => [("body", Ref.listToJson body)]
  | .block body => [("body", Ref.listToJson body)]
  | .expressionStatement expression => [("expression", Ref.toJson expression)]
  | .returnStatement argument => [("expression", Ref.toJson argument)]
  | .declaration kind declarations =>
    [("kind", .str kind.name), ("declarations", Ref.listToJson declarations)]
  | .declarator id init => [("id", Ref.toJson id), ("init", Ref.toJson init)]
  | .identifier name => [("name", .str name)]
  | .this => []
  | .literal raw => [("raw", .str raw)]
  | .member target key computed =>
    [("object", Ref.toJson target), ("property", Ref.toJson key), ("computed", .bool computed)]
  | .call _ callee arguments =>
    [("callee", Ref.toJson callee), ("arguments", Ref.listToJson arguments)]
  | .function _ id params body =>
    [("id", Ref.toJson id), ("params", Ref.listToJson params), ("body", Ref.toJson body)]
  | .assignment operator left right =>
    [("operator", .str operator), ("left", Ref.toJson left), ("right", Ref.toJson right)]
  | .property key value computed =>
    [("key", Ref.toJson key), ("value", Ref.toJson value), ("computed", .bool computed)]
  | .object properties => [("properties", Ref.listToJson properties)]
  | .array elements => [("elements", Ref.listToJson elements)]
  | .conditional test consequent alternate =>
    [("test", Ref.toJson test), ("consequent", Ref.toJson consequent),
      ("alternate", Ref.toJson alternate)]
  | .other typeName children =>
    [("type_name", .str typeName), ("children", Ref.listToJson children)]

end Form

namespace Node

/-- A node as JSON. -/
def toJson (n : Node) : Json :=
  let base : Json := .obj
    [("pos", .ofNat n.span.pos), ("end", .ofNat n.span.stop), ("parent", Ref.toJson n.parent)]
  .obj (("type", .str n.form.kind.name) :: ("base", base) :: n.form.toFields)

end Node

namespace Arena

/-- An arena as JSON. -/
def toJson (a : Arena) : Json :=
  .obj [("nodes", .arr (a.nodes.toList.map Node.toJson))]

end Arena

end CallNames
