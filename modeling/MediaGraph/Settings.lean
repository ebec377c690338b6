import MediaGraph.Error

/-!
# Settings of a compilation

## Main definitions

* `MediaGraph.Settings` — how labels are assigned and whether texts are escaped.
* `Settings.problem?`, `Settings.validate` — the rule for the stem of assigned labels.
-/

set_option autoImplicit false

namespace MediaGraph

/-- The settings of a compilation. -/
structure Settings where
  /-- What stands in front of the numbers of assigned labels. -/
  stem : String := "l"
  /-- The first number of an assigned label. -/
  first : Nat := 1
  /-- Whether arguments and names are escaped. -/
  escape : Bool := true
  deriving DecidableEq, Repr, Inhabited

namespace Settings

/-- Whether a character may start a plain word. -/
def startsWord (c : Char) : Bool := c.isAlpha || c == '_'

/-- Whether a character may stand in a plain word. -/
def continuesWord (c : Char) : Bool := c.isAlphanum || c == '_'

/-- Whether a text is a plain word: ASCII letters, digits and `_`, with no digit in front. -/
def isWord : List Char → Bool
  | [] => false
  | c :: rest => startsWord c && rest.all continuesWord

/-- What is wrong with settings: the stem must be a plain word, and a label with the first number
behind it. -/
def problem? (s : Settings) : Option Invalid :=
  if s.stem.toList = [] then some .emptyStem
  else if isWord s.stem.toList then
    let text := s.stem ++ toString s.first
    (Label.defect? text).map fun defect => .refusedStem s.stem text defect
  else some (.badStem s.stem)

/-- Refuses settings that have a problem. -/
def validate (s : Settings) : Except Error Unit :=
  match s.problem? with
  | none => .ok ()
  | some problem => .error (.invalid problem)

end Settings

end MediaGraph
