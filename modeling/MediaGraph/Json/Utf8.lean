import MediaGraph.Json

/-!
# Bytes of a document

The characters that UTF-8 bytes stand for. A byte that does not start the shortest form of a
character, or whose followers are missing, stands for no character; reading goes on behind it.

## Main definitions

* `MediaGraph.Json.decodeUtf8` — the symbols of a list of bytes.
-/

set_option autoImplicit false

namespace MediaGraph.Json

/-- The least second byte of a character whose first byte is `a`: smaller ones would spell a
character that has a shorter form. -/
def leastSecond (a : Nat) : Nat :=
  if a = 0xE0 then 0xA0 else if a = 0xF0 then 0x90 else 0x80

/-- The greatest second byte of a character whose first byte is `a`: larger ones would spell
half of a pair of UTF-16, or lie beyond the last character. -/
def greatestSecond (a : Nat) : Nat :=
  if a = 0xED then 0x9F else if a = 0xF4 then 0x8F else 0xBF

/-- Whether a byte can be the second one behind `a`. -/
def isSecond (a b : Nat) : Bool := leastSecond a ≤ b && b ≤ greatestSecond a

/-- Whether a byte can be the third or the fourth of a character. -/
def isFurther (b : Nat) : Bool := 0x80 ≤ b && b ≤ 0xBF

/-- The symbol at the front of a list of bytes that starts with `a`, and the number of further
bytes that belong to it. -/
def decodeFront (a : UInt8) (rest : List UInt8) : Symbol × Nat :=
  let a := a.toNat
  if a < 0x80 then (some (Char.ofNat a), 0)
  else if 0xC2 ≤ a && a ≤ 0xDF then
    match rest.map UInt8.toNat with
    | b :: _ =>
      if isSecond a b then (some (Char.ofNat ((a - 0xC0) * 64 + (b - 0x80))), 1) else (none, 0)
    | _ => (none, 0)
  else if 0xE0 ≤ a && a ≤ 0xEF then
    match rest.map UInt8.toNat with
    | b :: c :: _ =>
      if isSecond a b && isFurther c then
        (some (Char.ofNat ((a - 0xE0) * 4096 + (b - 0x80) * 64 + (c - 0x80))), 2)
      else (none, 0)
    | _ => (none, 0)
  else if 0xF0 ≤ a && a ≤ 0xF4 then
    match rest.map UInt8.toNat with
    | b :: c :: d :: _ =>
      if isSecond a b && isFurther c && isFurther d then
        (some (Char.ofNat
          ((a - 0xF0) * 262144 + (b - 0x80) * 4096 + (c - 0x80) * 64 + (d - 0x80))), 3)
      else (none, 0)
    | _ => (none, 0)
  else (none, 0)

/-- The symbols that a list of bytes stands for. -/
def decodeUtf8 : List UInt8 → List Symbol
  | [] => []
  | a :: rest =>
    let (symbol, further) := decodeFront a rest
    symbol :: decodeUtf8 (rest.drop further)
termination_by bytes => bytes.length
decreasing_by
  simp only [List.length_drop, List.length_cons]
  omega

end MediaGraph.Json
