import MediaGraph.Json

/-!
# Strings of a document

What stands between the quotes of a string, and the text that it means. Characters can be written
behind a backslash; those beyond the first plane need two escapes of four hexadecimal digits, a
high and a low half, and neither half stands alone.

## Main definitions

* `MediaGraph.Json.decodeBody` — the text that a body means, if it means one.
* `MediaGraph.Json.encodeBody` — the body that is written for a text.
-/

set_option autoImplicit false

namespace MediaGraph.Json

/-- The value of a hexadecimal digit. -/
def hexValue? (s : Symbol) : Option Nat :=
  match s with
  | none => none
  | some c =>
    if c.isDigit then some (c.toNat - '0'.toNat)
    else if 'a' ≤ c ∧ c ≤ 'f' then some (c.toNat - 'a'.toNat + 10)
    else if 'A' ≤ c ∧ c ≤ 'F' then some (c.toNat - 'A'.toNat + 10)
    else none

/-- The value of four hexadecimal digits. -/
def unit? (a b c d : Symbol) : Option Nat := do
  let a ← hexValue? a
  let b ← hexValue? b
  let c ← hexValue? c
  let d ← hexValue? d
  return ((a * 16 + b) * 16 + c) * 16 + d

/-- Whether a code unit is the high half of a pair. -/
def isHigh (u : Nat) : Bool := 0xD800 ≤ u && u ≤ 0xDBFF

/-- Whether a code unit is the low half of a pair. -/
def isLow (u : Nat) : Bool := 0xDC00 ≤ u && u ≤ 0xDFFF

/-- The character that a letter behind a backslash stands for. -/
def shortEscape? (c : Char) : Option Char :=
  match c with
  | '"' => some '"'
  | '\\' => some '\\'
  | '/' => some '/'
  | 'b' => some '\x08'
  | 'f' => some '\x0c'
  | 'n' => some '\n'
  | 'r' => some '\r'
  | 't' => some '\t'
  | _ => none

/-- The character of a pair of a high and a low half. -/
def joinHalves (high low : Nat) : Char :=
  Char.ofNat (0x10000 + (high - 0xD800) * 1024 + (low - 0xDC00))

/-- The text that the body of a string means. -/
def decodeBody : List Symbol → Option (List Char)
  | [] => some []
  | some '\\' :: some 'u' :: a :: b :: c :: d :: rest => do
    let u ← unit? a b c d
    if isHigh u then
      match rest with
      | some '\\' :: some 'u' :: e :: f :: g :: h :: rest => do
        let v ← unit? e f g h
        if isLow v then (decodeBody rest).map (joinHalves u v :: ·) else none
      | _ => none
    else if isLow u then none
    else (decodeBody rest).map (Char.ofNat u :: ·)
  | some '\\' :: some e :: rest => do
    let c ← shortEscape? e
    (decodeBody rest).map (c :: ·)
  | some '\\' :: _ => none
  | some c :: rest => (decodeBody rest).map (c :: ·)
  | none :: _ => none

/-- The way a character is written in a string: quotes, backslashes and the control characters
behind a backslash, all others as they are. -/
def encodeChar (c : Char) : List Char :=
  match c with
  | '"' => ['\\', '"']
  | '\\' => ['\\', '\\']
  | '\x08' => ['\\', 'b']
  | '\x0c' => ['\\', 'f']
  | '\n' => ['\\', 'n']
  | '\r' => ['\\', 'r']
  | '\t' => ['\\', 't']
  | c =>
    if c.toNat < 0x20 then
      ['\\', 'u', '0', '0', Nat.digitChar (c.toNat / 16), Nat.digitChar (c.toNat % 16)]
    else [c]

/-- The body of the string for a text. -/
def encodeBody (cs : List Char) : List Symbol := (cs.flatMap encodeChar).map some

/-- The string for a text. -/
def ofText (s : String) : Json := .string (encodeBody s.toList)

end MediaGraph.Json
