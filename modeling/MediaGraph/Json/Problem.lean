import MediaGraph.Label

/-!
# Problems of documents

A document can fail to be JSON, or be JSON of another shape than was asked for. Only the problems
that a reader of a message can act on are told apart; a broken document is just malformed.

## Main definitions

* `MediaGraph.Json.Problem` — the first problem of a document; `Problem.detail?` is its text.
-/

set_option autoImplicit false

namespace MediaGraph.Json

/-- The first problem met in a document. -/
inductive Problem where
  /-- It is no JSON, or has another shape than was asked for. -/
  | malformed
  /-- A text that should be a label is none. -/
  | label (text : String) (defect : Label.Defect)
  /-- A field without a default is absent. -/
  | missingField (name : String)
  /-- A field is given twice. -/
  | duplicateField (name : String)
  /-- A field is given that does not exist. -/
  | unknownField (name : String)
  deriving DecidableEq, Repr

/-- The words for a problem, where it has any of its own. -/
def Problem.detail? : Problem → Option String
  | .malformed => none
  | .label text defect => some (Label.refusal text defect.reason)
  | .missingField name => some ("missing field `" ++ name ++ "`")
  | .duplicateField name => some ("duplicate field `" ++ name ++ "`")
  | .unknownField name => some ("unknown field `" ++ name ++ "`")

end MediaGraph.Json
