import MediaGraph.Json

/-!
# Reading a document

The grammar of JSON: no comments, no comma behind the last item, no zeros in front of a number,
no control characters in a string, and nothing behind the value but white space. The reader does
not fail; where the document breaks the grammar the tree ends in `Json.broken` or in an array or
object that is not closed, and nothing behind that place is read.

## Main definitions

* `MediaGraph.Json.readValue` — the tree at the front of a document and what is behind it.
* `MediaGraph.Json.read` — the tree of a whole document.
-/

set_option autoImplicit false

namespace MediaGraph.Json

/-- Whether a symbol is white space of JSON. -/
def isSpace (s : Symbol) : Bool :=
  s == some ' ' || s == some '\n' || s == some '\t' || s == some '\r'

/-- The document behind the white space at its front. -/
def skipSpace (cs : List Symbol) : List Symbol := cs.dropWhile isSpace

/-- The document behind `word` at its front, if it starts with that. -/
def scanWord (word : List Char) (cs : List Symbol) : Option (List Symbol) :=
  if (word.map some).isPrefixOf cs then some (cs.drop word.length) else none

/-- The digits at the front of a document and what is behind them. -/
def scanDigits : List Symbol → List Char × List Symbol
  | some c :: rest =>
    if c.isDigit then
      let (ds, rest) := scanDigits rest
      (c :: ds, rest)
    else ([], some c :: rest)
  | cs => ([], cs)

/-- Whole digits: a single zero, or digits that do not start with one. -/
def scanWhole (cs : List Symbol) : Option (List Char × List Symbol) :=
  match scanDigits cs with
  | ([], _) => none
  | (d :: ds, rest) => if d = '0' ∧ ds ≠ [] then none else some (d :: ds, rest)

/-- A point with one or more digits behind it, or nothing. -/
def scanFraction : List Symbol → Option (List Char × List Symbol)
  | some '.' :: rest =>
    match scanDigits rest with
    | ([], _) => none
    | (ds, rest) => some (ds, rest)
  | cs => some ([], cs)

/-- A power of ten: a sign or none and one or more digits. -/
def scanPower (cs : List Symbol) : Option (Int × List Symbol) :=
  let negative := cs.head? == some (some '-')
  let unsigned := if negative || cs.head? == some (some '+') then cs.drop 1 else cs
  match scanDigits unsigned with
  | ([], _) => none
  | (ds, rest) =>
    let n : Int := Numeral.valueOfDigits ds
    some (if negative then -n else n, rest)

/-- A power of ten behind the letter for it, or nothing. -/
def scanExponent : List Symbol → Option (Option Int × List Symbol)
  | some c :: rest =>
    if c = 'e' ∨ c = 'E' then (scanPower rest).map fun (e, rest) => (some e, rest)
    else some (none, some c :: rest)
  | cs => some (none, cs)

/-- A number behind its sign. -/
def scanUnsigned (negative : Bool) (cs : List Symbol) : Option (Numeral × List Symbol) := do
  let (whole, cs) ← scanWhole cs
  let (fraction, cs) ← scanFraction cs
  let (exponent, cs) ← scanExponent cs
  return (⟨negative, whole, fraction, exponent⟩, cs)

/-- A number. -/
def scanNumber : List Symbol → Option (Numeral × List Symbol)
  | some '-' :: rest => scanUnsigned true rest
  | cs => scanUnsigned false cs

/-- Whether a symbol is a hexadecimal digit. -/
def isHex : Symbol → Bool
  | some c => c.isDigit || ('a' ≤ c && c ≤ 'f') || ('A' ≤ c && c ≤ 'F')
  | none => false

/-- Whether a backslash with the character behind it stands for one character. -/
def isShortEscape (c : Char) : Bool := "\"\\/bfnrt".toList.contains c

/-- The body of a string up to its closing quote, and what is behind that. -/
def scanString : List Symbol → Option (List Symbol × List Symbol)
  | [] => none
  | some '"' :: rest => some ([], rest)
  | some '\\' :: some 'u' :: a :: b :: c :: d :: rest =>
    if isHex a && isHex b && isHex c && isHex d then
      (scanString rest).map fun (body, rest) =>
        (some '\\' :: some 'u' :: a :: b :: c :: d :: body, rest)
    else none
  | some '\\' :: some e :: rest =>
    if isShortEscape e then
      (scanString rest).map fun (body, rest) => (some '\\' :: some e :: body, rest)
    else none
  | some '\\' :: _ => none
  | some c :: rest =>
    if c.toNat < 0x20 then none
    else (scanString rest).map fun (body, rest) => (some c :: body, rest)
  | none :: rest => (scanString rest).map fun (body, rest) => (none :: body, rest)

/-- A value that is one word, number or string, and what is behind it. -/
def readScalar (cs : List Symbol) : Json × Option (List Symbol) :=
  match cs with
  | some 'n' :: rest => after .null (scanWord "ull".toList rest)
  | some 't' :: rest => after (.bool true) (scanWord "rue".toList rest)
  | some 'f' :: rest => after (.bool false) (scanWord "alse".toList rest)
  | some '"' :: rest =>
    match scanString rest with
    | some (body, rest) => (.string body, some rest)
    | none => (.broken, none)
  | cs =>
    match scanNumber cs with
    | some (n, rest) => (.number n, some rest)
    | none => (.broken, none)
where
  /-- The value, if there is something to go on with. -/
  after (j : Json) : Option (List Symbol) → Json × Option (List Symbol)
    | some rest => (j, some rest)
    | none => (.broken, none)

mutual

/-- The value at the front of a document, and what is behind it unless the document breaks off.
At most two calls follow each other before another symbol is read, so twice as many calls are
enough as there are symbols. -/
def readValue : Nat → List Symbol → Json × Option (List Symbol)
  | 0, _ => (.broken, none)
  | calls + 1, cs =>
    match skipSpace cs with
    | some '[' :: rest =>
      match skipSpace rest with
      | some ']' :: rest => (.array [] true, some rest)
      | rest =>
        let (items, rest) := readItems calls rest
        (.array items rest.isSome, rest)
    | some '{' :: rest =>
      match skipSpace rest with
      | some '}' :: rest => (.object [] true, some rest)
      | rest =>
        let (members, rest) := readMembers calls rest
        (.object members rest.isSome, rest)
    | cs => readScalar cs

/-- The items of an array up to its end, at an item. -/
def readItems : Nat → List Symbol → List Json × Option (List Symbol)
  | 0, _ => ([], none)
  | calls + 1, cs =>
    match readValue calls cs with
    | (j, none) => ([j], none)
    | (j, some rest) =>
      match skipSpace rest with
      | some ']' :: rest => ([j], some rest)
      | some ',' :: rest =>
        let (items, rest) := readItems calls rest
        (j :: items, rest)
      | _ => ([j], none)

/-- The members of an object up to its end, at a key. A key without a value behind it has a
broken one. -/
def readMembers : Nat → List Symbol → List (List Symbol × Json) × Option (List Symbol)
  | 0, _ => ([], none)
  | calls + 1, cs =>
    match skipSpace cs with
    | some '"' :: rest =>
      match scanString rest with
      | none => ([], none)
      | some (key, rest) =>
        match skipSpace rest with
        | some ':' :: rest =>
          match readValue calls rest with
          | (j, none) => ([(key, j)], none)
          | (j, some rest) =>
            match skipSpace rest with
            | some '}' :: rest => ([(key, j)], some rest)
            | some ',' :: rest =>
              let (members, rest) := readMembers calls rest
              ((key, j) :: members, rest)
            | _ => ([(key, j)], none)
        | _ => ([(key, .broken)], none)
    | _ => ([], none)

end

/-- The tree of a document, and whether there is nothing but white space behind it. -/
def read (cs : List Symbol) : Json × Bool :=
  let (j, rest) := readValue (2 * cs.length + 2) cs
  (j, match rest with
    | some rest => (skipSpace rest).isEmpty
    | none => false)

end MediaGraph.Json
