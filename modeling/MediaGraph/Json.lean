import MediaGraph.Json.Problem
import MediaGraph.Number.Numeral

/-!
# JSON documents

A document is a sequence of symbols: characters, and bytes that belong to none. What is wrong
with a document may matter only where something is read from it, and what comes first in the
document is what counts. So a document is read into a tree without looking into its strings and
numbers, and a tree says where the document stopped being JSON.

## Main definitions

* `MediaGraph.Json.Symbol` — a character, or a byte that is part of none.
* `MediaGraph.Json` — the tree of a document, up to where it breaks off.
* `MediaGraph.Json.intact` — nothing breaks off.
-/

set_option autoImplicit false

namespace MediaGraph

/-- A character of a document, or `none` for a byte that is part of no character. -/
abbrev Json.Symbol := Option Char

/-- The tree of a JSON document. -/
inductive Json where
  /-- The word for nothing. -/
  | null
  /-- A truth value. -/
  | bool (b : Bool)
  /-- A number, as written. -/
  | number (n : Numeral)
  /-- A string, as written between its quotes. -/
  | string (body : List Json.Symbol)
  /-- An array; `closed` says whether its end was reached. -/
  | array (items : List Json) (closed : Bool)
  /-- An object: keys, as written between their quotes, each with its value, in the order of the
  document; `closed` says whether its end was reached. -/
  | object (members : List (List Json.Symbol × Json)) (closed : Bool)
  /-- What is no JSON. -/
  | broken
  deriving Inhabited

namespace Json

mutual

/-- Whether no part of the tree breaks off. -/
def intact : Json → Bool
  | .null | .bool _ | .number _ | .string _ => true
  | .array items closed => closed && intactItems items
  | .object members closed => closed && intactMembers members
  | .broken => false

/-- Whether none of the items breaks off. -/
def intactItems : List Json → Bool
  | [] => true
  | j :: rest => j.intact && intactItems rest

/-- Whether none of the members breaks off. -/
def intactMembers : List (List Symbol × Json) → Bool
  | [] => true
  | (_, j) :: rest => j.intact && intactMembers rest

end

/-- The symbols of a text. -/
def symbols (s : String) : List Symbol := s.toList.map some

end Json

end MediaGraph
