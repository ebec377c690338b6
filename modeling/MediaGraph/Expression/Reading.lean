/-!
# Reading an expression

The reader of an expression, as a media engine works: it takes a backslash as a sign that the next
character has no meaning of its own, and takes the text apart at the characters that have one.
The text of a filter is read twice, once between the labels of its node and once between its
parameters, and each time one level of backslashes is taken away.

## Main definitions

* `MediaGraph.Expression.Mark` — a character, with or without a meaning of its own;
  `marks` reads a text once.
* `MediaGraph.Expression.Parameter`, `ReadNode` — what is read from a parameter and from a node.
* `MediaGraph.Expression.readNode?`, `readNodes?` — reading one node, and a whole expression.
-/

set_option autoImplicit false

namespace MediaGraph.Expression

/-- A character of a text that was read once. -/
structure Mark where
  /-- The character. -/
  char : Char
  /-- Whether a backslash took its meaning away. -/
  escaped : Bool
  deriving DecidableEq, Repr

/-- The characters of a text. A backslash with nothing behind it stands for itself. -/
def marks : List Char → List Mark
  | [] => []
  | '\\' :: c :: rest => ⟨c, true⟩ :: marks rest
  | c :: rest => ⟨c, false⟩ :: marks rest

/-- The text without one level of backslashes. -/
def plainText (ms : List Mark) : List Char := ms.map Mark.char

/-- Whether a mark is the character `c` with its meaning. -/
def Mark.means (c : Char) (m : Mark) : Bool := m.char == c && !m.escaped

/-- The pieces of a text between the marks that mean `c`; there is at least one. -/
def pieces (c : Char) : List Mark → List (List Mark)
  | [] => [[]]
  | m :: rest =>
    if m.means c then [] :: pieces c rest
    else
      match pieces c rest with
      | [] => [[m]]
      | piece :: others => (m :: piece) :: others

/-- The parts of a text before and behind its first mark that means `c`, if there is one. -/
def splitFirst (c : Char) : List Mark → Option (List Mark × List Mark)
  | [] => none
  | m :: rest =>
    if m.means c then some ([], rest)
    else (splitFirst c rest).map fun (before, behind) => (m :: before, behind)

/-- A parameter that was read. -/
inductive Parameter where
  /-- An argument by position. -/
  | positional (text : List Char)
  /-- An option. -/
  | keyed (key value : List Char)
  deriving DecidableEq, Repr

/-- Reads a parameter: one with an equals sign is an option. -/
def readParameter (ms : List Mark) : Parameter :=
  match splitFirst '=' ms with
  | none => .positional (plainText ms)
  | some (key, value) => .keyed (plainText key) (plainText value)

/-- A node that was read. -/
structure ReadNode where
  /-- The labels of the inputs. -/
  inputs : List (List Char)
  /-- The name of the filter. -/
  filter : List Char
  /-- The parameters, in order. -/
  parameters : List Parameter
  /-- The labels of the outputs. -/
  outputs : List (List Char)
  deriving DecidableEq, Repr

/-- Reads the text of a filter with one level of backslashes taken away: its name goes up to the
first equals sign, and the parameters behind that stand between colons. -/
def readSpecification (cs : List Char) : List Char × List Parameter :=
  (cs.takeWhile (· != '='),
    match cs.dropWhile (· != '=') with
    | [] => []
    | _ :: rest => (pieces ':' (marks rest)).map readParameter)

/-- The labels in brackets at the front of a text, and what is behind them; nothing if a bracket
is not closed. The number bounds the labels. -/
def readLabels? : Nat → List Mark → Option (List (List Char) × List Mark)
  | 0, ms => some ([], ms)
  | bound + 1, ms =>
    match ms with
    | [] => some ([], [])
    | m :: rest =>
      if m.means '[' then do
        let (label, rest) ← splitFirst ']' rest
        let (labels, rest) ← readLabels? bound rest
        return (plainText label :: labels, rest)
      else some ([], m :: rest)

/-- Reads one node: labels, the text of the filter up to the next bracket, and labels up to the
end. -/
def readNode? (ms : List Mark) : Option ReadNode := do
  let (inputs, rest) ← readLabels? ms.length ms
  let (filter, parameters) :=
    readSpecification (plainText (rest.takeWhile fun m => !m.means '['))
  let (outputs, rest) ← readLabels? ms.length (rest.dropWhile fun m => !m.means '[')
  if rest.isEmpty then return ⟨inputs, filter, parameters, outputs⟩ else none

/-- Reads a whole expression: nodes between semicolons. -/
def readNodes? (cs : List Char) : Option (List ReadNode) :=
  (pieces ';' (marks cs)).mapM readNode?

end MediaGraph.Expression
