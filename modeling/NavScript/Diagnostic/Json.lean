import NavScript.Diagnostic.Basic
import NavScript.Tree.Json

/-!
# Diagnostics in JSON

The form for tools: code, severity and texts, the marked region, and the cause with its parts.
-/

namespace NavScript.Diagnostic

/-- The cause and its parts. -/
def details : Diagnostic → Json
  | unresolvedStep step inView span =>
    .object [("kind", .string "unresolved_step"), ("step", .string step),
      ("in_view", .ofOption Ty.toJson inView), ("span", span.toJson)]
  | unresolvedName name span =>
    .object [("kind", .string "unresolved_name"), ("name", .string name), ("span", span.toJson)]
  | unresolvedMethod name arity span =>
    .object [("kind", .string "unresolved_method_call"), ("name", .string name),
      ("arity", .ofNat arity), ("span", span.toJson)]
  | returnMismatch method expected found span =>
    .object [("kind", .string "return_type_mismatch"), ("method", .string method),
      ("expected", expected.toJson), ("found", found.toJson), ("span", span.toJson)]
  | missingReturn method expected span =>
    .object [("kind", .string "missing_return"), ("method", .string method),
      ("expected", expected.toJson), ("span", span.toJson)]
  | unresolvedOperator op left right span =>
    .object [("kind", .string "unresolved_operator"), ("op", .string op.label),
      ("left", left.toJson), ("right", right.toJson), ("span", span.toJson)]
  | navigatorConflict declaring axis test kept dropped =>
    .object [("kind", .string "navigator_conflict"), ("declaring", declaring.toJson),
      ("axis", axis.toJson), ("test", .string test), ("kept", .string kept),
      ("dropped", .string dropped)]

/-- The marked region; its offsets are those of the span, whatever the length of the source. -/
def regionJson (d : Diagnostic) (span : Span) : Json :=
  .object [("start", .ofNat span.range.1), ("end", .ofNat span.range.2),
    ("line", .ofNat span.start.line.toNat), ("column", .ofNat span.start.column.toNat),
    ("label", .string d.label)]

def toJson (d : Diagnostic) (file : String) : Json :=
  .object [("code", .string d.code), ("severity", .string d.severity.name),
    ("message", .string d.message), ("file", .string file),
    ("spans", .array (d.region?.toList.map d.regionJson)),
    ("fix", .ofOption .string d.help?), ("details", d.details)]

end NavScript.Diagnostic
