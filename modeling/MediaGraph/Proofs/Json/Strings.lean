import Mathlib.Tactic.Lemma
import MediaGraph.Json.Reader
import MediaGraph.Json.StringBody

/-!
# Strings are read as they were written

A character is written in one of three ways: behind a backslash as a letter, behind a backslash as
four hexadecimal digits, or as it is. Each of them is passed over as a whole in looking for the
closing quote, and each means the character again.

## Main definitions

* `MediaGraph.Json.Spells` — the ways in which characters are written.

## Main results

* `MediaGraph.Json.scanString_encodeBody` — the end of a string is found.
* `MediaGraph.Json.decodeBody_encodeBody` — a string means the text that was written.
-/

set_option autoImplicit false

namespace MediaGraph.Json

/-- Whether characters spell a character in a string. -/
inductive Spells (c : Char) : List Char → Prop where
  /-- A letter behind a backslash. -/
  | short {e : Char} (known : isShortEscape e = true) (means : shortEscape? e = some c)
      (other : e ≠ 'u') : Spells c ['\\', e]
  /-- Four hexadecimal digits behind a backslash, for a control character. -/
  | control (low : c.toNat < 0x20) : Spells c
      ['\\', 'u', '0', '0', Nat.digitChar (c.toNat / 16), Nat.digitChar (c.toNat % 16)]
  /-- The character itself, if it is no quote, no backslash and no control character. -/
  | plain (high : 0x20 ≤ c.toNat) (quote : c ≠ '"') (slash : c ≠ '\\') : Spells c [c]

/-- A character is spelt the way it is written. -/
lemma spells_encodeChar (c : Char) : Spells c (encodeChar c) := by
  unfold encodeChar
  split
  · exact .short (by decide) rfl (by decide)
  · exact .short (by decide) rfl (by decide)
  · exact .short (by decide) rfl (by decide)
  · exact .short (by decide) rfl (by decide)
  · exact .short (by decide) rfl (by decide)
  · exact .short (by decide) rfl (by decide)
  · exact .short (by decide) rfl (by decide)
  · split
    · next low => exact .control low
    · next quote slash _ _ _ _ _ high => exact .plain (by omega) quote slash

/-! ## The end of a string -/

lemma isHex_digitChar {n : Nat} (h : n < 16) : isHex (some (Nat.digitChar n)) = true := by
  revert n
  decide

/-- What spells a character is passed over as a whole. -/
lemma scanString_append {c : Char} {spelt : List Char} (h : Spells c spelt)
    (rest : List Symbol) :
    scanString (spelt.map some ++ rest) =
      (scanString rest).map fun r => (spelt.map some ++ r.1, r.2) := by
  cases h with
  | short known means other =>
    simp only [List.map_cons, List.map_nil, List.cons_append, List.nil_append]
    rw [scanString, if_pos known]
    exact fun _ _ _ _ _ _ hu => other hu
  | control low =>
    have hhigh : isHex (some (Nat.digitChar (c.toNat / 16))) = true := isHex_digitChar (by omega)
    have hlow : isHex (some (Nat.digitChar (c.toNat % 16))) = true := isHex_digitChar (by omega)
    have hzero : isHex (some '0') = true := by decide
    simp only [List.map_cons, List.map_nil, List.cons_append, List.nil_append]
    rw [scanString, hhigh, hlow, hzero]
    rfl
  | plain high quote slash =>
    have hlow : ¬ c.toNat < 0x20 := by omega
    simp only [List.map_cons, List.map_nil, List.cons_append, List.nil_append]
    rw [scanString, if_neg hlow]
    · exact quote
    · exact fun _ _ _ _ _ _ hc => slash hc
    · exact fun _ _ _ hc => slash hc
    · exact slash

/-- **The end of a string is found**, whatever stands behind it. -/
theorem scanString_encodeBody (cs : List Char) (rest : List Symbol) :
    scanString (encodeBody cs ++ some '"' :: rest) = some (encodeBody cs, rest) := by
  unfold encodeBody
  induction cs with
  | nil => rfl
  | cons c tail ih =>
    rw [List.flatMap_cons, List.map_append, List.append_assoc,
      scanString_append (spells_encodeChar c), ih]
    rfl

/-! ## The meaning of a string -/

lemma hexValue?_digitChar {n : Nat} (h : n < 16) : hexValue? (some (Nat.digitChar n)) = some n := by
  revert n
  decide

/-- What spells a character means it. -/
lemma decodeBody_append {c : Char} {spelt : List Char} (h : Spells c spelt)
    (rest : List Symbol) :
    decodeBody (spelt.map some ++ rest) = (decodeBody rest).map (c :: ·) := by
  cases h with
  | short known means other =>
    simp only [List.map_cons, List.map_nil, List.cons_append, List.nil_append]
    rw [decodeBody, means]
    · rfl
    · exact fun _ _ _ _ _ _ hu => other hu
  | control low =>
    have hunit : unit? (some '0') (some '0') (some (Nat.digitChar (c.toNat / 16)))
        (some (Nat.digitChar (c.toNat % 16))) = some c.toNat := by
      have hzero : hexValue? (some '0') = some 0 := by decide
      simp only [unit?, hzero, hexValue?_digitChar (show c.toNat / 16 < 16 by omega),
        hexValue?_digitChar (show c.toNat % 16 < 16 by omega)]
      change some (((0 * 16 + 0) * 16 + c.toNat / 16) * 16 + c.toNat % 16) = some c.toNat
      congr 1
      omega
    have hhigh : isHigh c.toNat = false := by
      simp only [isHigh, Bool.and_eq_false_iff, decide_eq_false_iff_not]
      omega
    have hlow : isLow c.toNat = false := by
      simp only [isLow, Bool.and_eq_false_iff, decide_eq_false_iff_not]
      omega
    simp only [List.map_cons, List.map_nil, List.cons_append, List.nil_append]
    rw [decodeBody, hunit]
    simp [hhigh, hlow]
  | plain high quote slash =>
    simp only [List.map_cons, List.map_nil, List.cons_append, List.nil_append]
    rw [decodeBody]
    · exact fun _ _ _ _ _ _ hc => slash hc
    · exact fun _ _ _ hc => slash hc
    · exact slash

/-- **A string means the text that was written.** -/
theorem decodeBody_encodeBody (cs : List Char) : decodeBody (encodeBody cs) = some cs := by
  unfold encodeBody
  induction cs with
  | nil => rfl
  | cons c tail ih =>
    rw [List.flatMap_cons, List.map_append, decodeBody_append (spells_encodeChar c), ih]
    rfl

end MediaGraph.Json
