import MediaGraph.Json

/-!
# Writing a document

A tree is written without white space, its members in the order they have.

## Main definitions

* `MediaGraph.Json.print` — the symbols of a tree.
* `MediaGraph.Json.text` — the text of a tree.
-/

set_option autoImplicit false

namespace MediaGraph.Json

/-- The symbols of a string with the given body. -/
def printString (body : List Symbol) : List Symbol := some '"' :: body ++ [some '"']

mutual

/-- The symbols of a tree. What breaks off is written as far as it goes. -/
def print : Json → List Symbol
  | .null => symbols "null"
  | .bool b => symbols (if b then "true" else "false")
  | .number n => n.text.map some
  | .string body => printString body
  | .array items closed =>
    some '[' :: printItems items ++ if closed then [some ']'] else []
  | .object members closed =>
    some '{' :: printMembers members ++ if closed then [some '}'] else []
  | .broken => []

/-- The symbols of items between commas. -/
def printItems : List Json → List Symbol
  | [] => []
  | [j] => j.print
  | j :: rest => j.print ++ some ',' :: printItems rest

/-- The symbols of members between commas. -/
def printMembers : List (List Symbol × Json) → List Symbol
  | [] => []
  | [(key, j)] => printString key ++ some ':' :: j.print
  | (key, j) :: rest => printString key ++ some ':' :: j.print ++ some ',' :: printMembers rest

end

/-- The text of a tree. -/
def text (j : Json) : String := String.ofList (j.print.filterMap id)

end MediaGraph.Json
