import MediaGraph.SortedMap
import MediaGraph.Value.Coercion

/-!
# Arguments of a filter

A filter takes arguments by position and options by key. Options are kept by ascending key, so
their order in the expression is the same however they were set. Arguments can be given in
parts: of the positional lists the first that is not empty stands, of the options with one key
the last.

## Main definitions

* `MediaGraph.Arguments` — positional arguments and options.
* `MediaGraph.Arguments.merge` — one container from many parts.
* `MediaGraph.Arguments.getOr` — an option as a value of a wanted type.
* `MediaGraph.Arguments.take` — an option as a text, and the container without it.
-/

set_option autoImplicit false

namespace MediaGraph

/-- The arguments of one filter. -/
structure Arguments where
  /-- The arguments by position. -/
  positional : List Value
  /-- The options by key. -/
  options : SortedMap String Value
  deriving Inhabited

namespace Arguments

/-- No arguments. -/
def empty : Arguments := ⟨[], ∅⟩

/-- Whether there is neither a positional argument nor an option. -/
def isEmpty (a : Arguments) : Bool := a.positional.isEmpty && a.options.isEmpty

/-- The arguments with one more by position. -/
def push (a : Arguments) (v : Value) : Arguments := ⟨a.positional ++ [v], a.options⟩

/-- The arguments with the option `key` set, in place of an earlier value. -/
def set (a : Arguments) (key : String) (v : Value) : Arguments :=
  ⟨a.positional, a.options.insert key v⟩

/-- The value of an option. -/
def get? (a : Arguments) (key : String) : Option Value := a.options.find? key

/-- The text of the option `key`, empty if it is not set, and the arguments without it. -/
def take (a : Arguments) (key : String) : String × Arguments :=
  (((a.get? key).map Value.render).getD "", ⟨a.positional, a.options.erase key⟩)

/-- One part added behind `a`: its positional arguments stand if there are none yet, its options
win. -/
def add (a part : Arguments) : Arguments :=
  ⟨if a.positional.isEmpty then part.positional else a.positional,
    a.options.insertAll part.options.toList⟩

/-- All parts as one container. -/
def merge (parts : List Arguments) : Arguments := parts.foldl add empty

/-- The option `key` as a value of the type `kind`, or `default` if it is not set. -/
def getOr (a : Arguments) (kind : Kind) (key : String) (default : kind.Carrier) :
    Except Error kind.Carrier :=
  match a.get? key with
  | none => .ok default
  | some v =>
    match kind.coerce? v with
    | some x => .ok x
    | none => .error (.typeMismatch key kind.name v.render)

end Arguments

end MediaGraph
