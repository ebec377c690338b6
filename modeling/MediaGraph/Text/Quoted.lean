import MediaGraph.Text.Blank

/-!
# Characters in messages

A message that points at one character shows it between single quotes. Space that cannot be
seen is written by a short escape where it has one and by its code point otherwise.

## Main definitions

* `MediaGraph.Text.quoteChar` — a character between single quotes.
-/

set_option autoImplicit false

namespace MediaGraph.Text

/-- The text of a character inside single quotes: tab, line feed and carriage return by their
short escapes, a quote and a backslash behind a backslash, every blank but the plain space by its
code point in hexadecimal, and any other character as itself. -/
def escapedChar (c : Char) : String :=
  if c = '\t' then "\\t"
  else if c = '\n' then "\\n"
  else if c = '\r' then "\\r"
  else if c = '\'' ∨ c = '\\' then String.ofList ['\\', c]
  else if c = ' ' then " "
  else if isBlank c then "\\u\x7b" ++ String.ofList (Nat.toDigits 16 c.toNat) ++ "\x7d"
  else String.singleton c

/-- The character between single quotes. -/
def quoteChar (c : Char) : String :=
  "'" ++ escapedChar c ++ "'"

end MediaGraph.Text
