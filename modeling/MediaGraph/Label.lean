import MediaGraph.Text.Blank

/-!
# Labels

A label names a stream in the text of a filter graph, where it stands between brackets. Its
characters are therefore restricted: the ASCII letters and digits, and `_`, `-`, `.` and `:`,
the last so that a specifier such as `0:v` can name a stream from outside.

## Main definitions

* `MediaGraph.Label` — a text with the proof that it can be a label.
* `MediaGraph.Label.defect?` — what is wrong with a text, by its first bad character.
* `MediaGraph.Label.ofText` — the label with a text, or the defect of the text.
-/

set_option autoImplicit false

namespace MediaGraph

namespace Label

/-- Why a text cannot be a label. -/
inductive Defect where
  /-- It has no characters. -/
  | empty
  /-- It holds a bracket, which would end the label. -/
  | bracket
  /-- It holds a separator of filters or of chains. -/
  | separator
  /-- It holds white space. -/
  | blank
  /-- It holds another character outside the alphabet of labels. -/
  | foreign
  deriving DecidableEq, Repr

/-- The words for a defect. -/
def Defect.reason : Defect → String
  | .empty => "label must be non-empty"
  | .bracket => "brackets are not allowed"
  | .separator => "graph separators are not allowed"
  | .blank => "whitespace is not allowed"
  | .foreign => "only ASCII alphanumerics, '_', '-', '.' and ':' are allowed"

/-- The words for a text that was refused as a label. -/
def refusal (text reason : String) : String :=
  "invalid label '" ++ text ++ "': " ++ reason

/-- Whether a character may stand in a label. -/
def allows (c : Char) : Bool :=
  c.isAlphanum || c == '_' || c == '-' || c == '.' || c == ':'

/-- What is wrong with one character. -/
def charDefect? (c : Char) : Option Defect :=
  if allows c then none
  else if c = '[' ∨ c = ']' then some .bracket
  else if c = ';' ∨ c = ',' then some .separator
  else if Text.isBlank c then some .blank
  else some .foreign

/-- What is wrong with a text: that it is empty, or the defect of its first bad character. -/
def defect? (s : String) : Option Defect :=
  if s.toList = [] then some .empty else s.toList.findSome? charDefect?

/-- The specifier `0:v` can be a label. -/
theorem defect?_specifier : defect? "0:v" = none := by decide

end Label

/-- A text that can stand between brackets. -/
structure Label where
  /-- The text without the brackets. -/
  text : String
  /-- Nothing is wrong with the text. -/
  sound : Label.defect? text = none
  deriving DecidableEq

namespace Label

/-- The label with the given text, or the defect of the text. -/
def ofText (s : String) : Except Defect Label :=
  match h : defect? s with
  | none => .ok ⟨s, h⟩
  | some d => .error d

/-- Labels are ordered as texts, by code points. -/
instance : Ord Label := ⟨compareOn text⟩

instance : Std.TransOrd Label := inferInstanceAs (Std.TransCmp (compareOn text))

instance : Std.LawfulEqOrd Label where
  eq_of_compare {a b} h := by
    have same : a.text = b.text := Std.LawfulEqOrd.eq_of_compare h
    cases a
    cases b
    simp_all

end Label

end MediaGraph
