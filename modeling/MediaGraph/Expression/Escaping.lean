/-!
# Escaping

A character that has a meaning of its own in the expression is written behind a backslash. A text
passes two readers, that of the arguments of a filter and that of the whole graph, so it is
escaped once for each.

## Main definitions

* `MediaGraph.Expression.escape` — a text with the special characters behind backslashes.
* `argumentSpecial`, `graphSpecial` — the characters that are special to each reader.
-/

set_option autoImplicit false

namespace MediaGraph.Expression

/-- The characters with a meaning inside the arguments of a filter. -/
def argumentSpecial : List Char := ['\\', '\'', '=', ':']

/-- The characters with a meaning between filters. -/
def graphSpecial : List Char := ['\\', '\'', '[', ']', ',', ';']

/-- The text with a backslash in front of every special character. -/
def escape (special : List Char) (cs : List Char) : List Char :=
  cs.flatMap fun c => if special.contains c then ['\\', c] else [c]

/-- The text escaped if `on`, and as it is otherwise. -/
def escapeIf (on : Bool) (special : List Char) (cs : List Char) : List Char :=
  if on then escape special cs else cs

end MediaGraph.Expression
