import MediaGraph.Json.Number
import MediaGraph.Json.Reader
import MediaGraph.Json.StringBody
import MediaGraph.SortedMap

/-!
# Shapes of documents

What a document is read as: a text, a number, a list, a record with named fields, and so on. A
document is looked at in its own order and the first problem is the one reported. Arrays and
objects may be nested only so deep; a reader is told how many more levels there may be.

A record is an object with the fields in any order or an array with the fields in their order. An
array may leave out fields at the end.

## Main definitions

* `MediaGraph.Json.Decoder` — what reads a tree as a value.
* `text`, `natural`, `flag`, `label`, `optional`, `items`, `entries`, `record` — the shapes.
* `ofList`, `ofFields`, `ofOption` — the trees of lists, of records and of what may be absent.
* `MediaGraph.Json.decode` — reads a whole document.
-/

set_option autoImplicit false

namespace MediaGraph.Json

/-- Reads a tree as a value. The number says how many levels of arrays and objects there may
be. -/
abbrev Decoder (α : Type) := Nat → Json → Except Problem α

/-- The value, or the problem that there is none. -/
def orMalformed {α : Type} : Option α → Except Problem α
  | some a => .ok a
  | none => .error .malformed

/-- The text that a body means. -/
def bodyText (body : List Symbol) : Except Problem String :=
  (orMalformed (decodeBody body)).map String.ofList

namespace Decoder

variable {α : Type}

/-- A text. -/
def text : Decoder String
  | _, .string body => bodyText body
  | _, _ => .error .malformed

/-- A whole number from zero to `greatest`. -/
def natural (greatest : Nat) : Decoder Nat
  | _, .number n =>
    match number? n with
    | some (.whole i) =>
      if 0 ≤ i ∧ i ≤ greatest then .ok i.toNat else .error .malformed
    | _ => .error .malformed
  | _, _ => .error .malformed

/-- A truth value. -/
def flag : Decoder Bool
  | _, .bool b => .ok b
  | _, _ => .error .malformed

/-- A text that is a label. -/
def label : Decoder Label := fun depth j => do
  let s ← text depth j
  match Label.ofText s with
  | .ok l => return l
  | .error d => throw (.label s d)

/-- A value, or the word for nothing. -/
def optional (d : Decoder α) : Decoder (Option α)
  | _, .null => .ok none
  | depth, j => (d depth j).map some

/-- Anything, which is passed over: it must be JSON, but its strings and numbers are not looked
at, and it may be nested to any depth. -/
def anything : Decoder Unit := fun _ j => if j.intact then .ok () else .error .malformed

/-- Every item, in order. -/
def itemList (d : Json → Except Problem α) : List Json → Except Problem (List α)
  | [] => .ok []
  | j :: rest => do
    let a ← d j
    let as ← itemList d rest
    return a :: as

/-- A list of values. -/
def items (d : Decoder α) : Decoder (List α)
  | depth + 1, .array js closed => do
    let as ← itemList (d depth) js
    if closed then return as else throw .malformed
  | _, _ => .error .malformed

/-- Every member with its key, in order. -/
def entryList (d : Json → Except Problem α) :
    List (List Symbol × Json) → Except Problem (List (String × α))
  | [] => .ok []
  | (body, j) :: rest => do
    let key ← bodyText body
    let a ← d j
    let es ← entryList d rest
    return (key, a) :: es

/-- Values by key; of two with one key the later stands. -/
def entries (d : Decoder α) : Decoder (SortedMap String α)
  | depth + 1, .object members closed => do
    let es ← entryList (d depth) members
    if closed then return .ofList es else throw .malformed
  | _, _ => .error .malformed

/-- The value of a field that was not given before. -/
def once (name : String) (given : Option α) (value : Except Problem α) :
    Except Problem (Option α) :=
  if given.isSome then .error (.duplicateField name) else value.map some

/-- The value of a field without a default. -/
def needed (name : String) : Option α → Except Problem α
  | some a => .ok a
  | none => .error (.missingField name)

/-- The fields `φ` with every member read into them, in order. -/
def readMembers {φ : Type} (field : φ → String → Json → Except Problem φ) :
    φ → List (List Symbol × Json) → Except Problem φ
  | fields, [] => .ok fields
  | fields, (body, j) :: rest => do
    let key ← bodyText body
    let fields ← field fields key j
    readMembers field fields rest

/-- The fields `φ` with every item read into the field at its place. -/
def readPlaces {φ : Type} (field : φ → String → Json → Except Problem φ) :
    φ → List String → List Json → Except Problem φ
  | fields, name :: names, j :: rest => do
    let fields ← field fields name j
    readPlaces field fields names rest
  | fields, _, [] => .ok fields
  | _, [], _ :: _ => .error .malformed

/-- A record with the fields `names`: `field` reads one field into the fields read so far, which
are `start` at first, and `finish` makes the record. In an array no field is missed by name. -/
def record {φ : Type} (names : List String) (start : φ)
    (field : Nat → φ → String → Json → Except Problem φ) (finish : φ → Except Problem α) :
    Decoder α
  | depth + 1, .object members closed => do
    let fields ← readMembers (field depth) start members
    if closed then finish fields else throw .malformed
  | depth + 1, .array js closed => do
    let fields ← readPlaces (field depth) start names js
    if closed then
      match finish fields with
      | .ok a => return a
      | .error _ => throw .malformed
    else throw .malformed
  | _, _ => .error .malformed

end Decoder

/-! ## Writing -/

/-- The tree of a list. -/
def ofList (items : List Json) : Json := .array items true

/-- The tree of a record: its fields in order. -/
def ofFields (fields : List (String × Json)) : Json :=
  .object (fields.map fun e => (encodeBody e.1.toList, e.2)) true

/-- The tree of what may be absent. -/
def ofOption {α : Type} (tree : α → Json) : Option α → Json
  | none => .null
  | some a => tree a

/-! ## Whole documents -/

/-- The number of levels of arrays and objects that a document may have. -/
def depthLimit : Nat := 127

/-- Reads a whole document. -/
def decode {α : Type} (d : Decoder α) (document : List Symbol) : Except Problem α := do
  let (j, finished) := read document
  let a ← d depthLimit j
  if finished then return a else throw .malformed

end MediaGraph.Json
