import MediaGraph.Value

/-!
# Reading a value as another type

Whoever asks for an option names the type that is wanted. A value of another type is taken where
it plainly stands for one of the wanted type: the text `" 2 "` for the number 2, a floating-point
number without a fraction for a whole one, `0` and `1` for truth values. Blanks around a text do
not count.

## Main definitions

* `MediaGraph.Kind` — the types that can be asked for, each with its name.
* `MediaGraph.Kind.coerce?` — the value as one of the type, if it stands for one.
-/

set_option autoImplicit false

namespace MediaGraph

namespace Value

/-- The whole number of 64 bits closest to a whole number. -/
def clampInt (i : Int) : Int64 := Int64.ofInt (max Width.minSigned64 (min Width.maxSigned64 i))

/-- The whole number that a text spells, if it has 64 bits. -/
def readInt? (cs : List Char) : Option Int64 :=
  match Numeral.integer? cs with
  | some i => if Width.isSigned64 i then some (Int64.ofInt i) else none
  | none => none

/-- The value as a whole number: a floating-point number must be finite and without a fraction,
and takes the closest number in range. -/
def asInt? : Value → Option Int64
  | .int i => some i
  | .bool b => some (if b then 1 else 0)
  | .float x => x.whole?.map clampInt
  | .text s => readInt? (Text.trim s.toList)
  | .list _ => none

/-- The value as a floating-point number, the nearest one. -/
def asFloat? : Value → Option Binary64
  | .float x => some x
  | .int i => some (Binary64.ofInt i.toInt)
  | .text s => Binary64.read? (Text.trim s.toList)
  | _ => none

/-- The value as a truth value: the numbers 0 and 1 and the words for the two stand for them. -/
def asBool? : Value → Option Bool
  | .bool b => some b
  | .int i => if i = 0 then some false else if i = 1 then some true else none
  | .text s =>
    let word := String.ofList (Text.trim s.toList)
    if word = "1" ∨ word = "true" then some true
    else if word = "0" ∨ word = "false" then some false
    else none
  | _ => none

/-- The value as a text: every value has one. -/
def asText? (v : Value) : Option String := some v.render

end Value

/-- A type that an option can be asked for. -/
inductive Kind where
  /-- Whole numbers. -/
  | integer
  /-- Floating-point numbers. -/
  | float
  /-- Truth values. -/
  | bool
  /-- Texts. -/
  | string
  deriving DecidableEq, Repr

namespace Kind

/-- The name of a type in messages. -/
def name : Kind → String
  | .integer => "integer"
  | .float => "float"
  | .bool => "bool"
  | .string => "string"

/-- The values of a type. -/
abbrev Carrier : Kind → Type
  | .integer => Int64
  | .float => Binary64
  | .bool => Bool
  | .string => String

/-- The value as one of the type, if it stands for one. -/
def coerce? : (kind : Kind) → Value → Option kind.Carrier
  | .integer => Value.asInt?
  | .float => Value.asFloat?
  | .bool => Value.asBool?
  | .string => Value.asText?

end Kind

end MediaGraph
