import Mathlib.Tactic.Lemma
import MediaGraph.Json.Number
import MediaGraph.Json.Reader

/-!
# Whole numbers are read as they were written

A whole number is written as digits that do not start with a zero, unless they are a single zero,
behind a minus sign or none. Reading ends at the first character that is no digit, and 64 bits hold
the value if they held it before.

## Main definitions

* `MediaGraph.Json.Ends` — what may stand behind a value.

## Main results

* `MediaGraph.Json.scanNumber_ofInt` — the end of a whole number is found.
* `MediaGraph.Json.number?_ofInt` — a whole number means what was written.
-/

set_option autoImplicit false

namespace MediaGraph

namespace Numeral

/-- The digits of a number spell it. -/
lemma valueOfDigits_digitsOf (n : Nat) : valueOfDigits (digitsOf n) = n := by
  rw [valueOfDigits, digitsOf, ← Nat.ofDigitChars_eq_foldl, Nat.ofDigitChars_ten_toDigits]

lemma isDigit_of_mem {n : Nat} {c : Char} (h : c ∈ digitsOf n) : c.isDigit = true :=
  Nat.isDigit_of_mem_toDigits (by omega) (by omega) h

/-- Digits of a number start with a zero only if there is no other. -/
lemma exists_digits (n : Nat) :
    ∃ d ds, digitsOf n = d :: ds ∧ d.isDigit = true ∧ (d = '0' → ds = []) := by
  induction n using Nat.strongRecOn with
  | ind n ih =>
    rw [digitsOf, Nat.toDigits_eq_if (by omega)]
    split
    · next hn =>
      exact ⟨_, [], rfl, by simpa [Nat.isDigit_digitChar] using hn, fun _ => rfl⟩
    · next hn =>
      obtain ⟨d, ds, hds, hd, hzero⟩ := ih (n / 10) (by omega)
      rw [digitsOf] at hds
      refine ⟨d, ds ++ [Nat.digitChar (n % 10)], by rw [hds]; rfl, hd, fun h => ?_⟩
      -- the digits in front spell a number that is not zero
      have hvalue := valueOfDigits_digitsOf (n / 10)
      rw [digitsOf, hds, h, hzero h] at hvalue
      simp [valueOfDigits] at hvalue
      omega

end Numeral

namespace Json

/-- Whether a document may go on like this behind a value: not at all, or with the sign in front of
the next item or member or that of the end of the array or object. -/
def Ends (rest : List Symbol) : Prop :=
  ∀ s ∈ rest.head?, s = some ',' ∨ s = some ']' ∨ s = some '}'

lemma ends_nil : Ends [] := by simp [Ends]

lemma ends_cons {c : Char} (h : c = ',' ∨ c = ']' ∨ c = '}') (rest : List Symbol) :
    Ends (some c :: rest) := by
  simpa [Ends] using h

/-- The digits end where no digit follows. -/
lemma scanDigits_append {ds : List Char} (hds : ∀ c ∈ ds, c.isDigit = true) {rest : List Symbol}
    (hrest : Ends rest) : scanDigits (ds.map some ++ rest) = (ds, rest) := by
  induction ds with
  | nil =>
    cases rest with
    | nil => rfl
    | cons s tail =>
      have hs := hrest s (by simp)
      rcases hs with rfl | rfl | rfl <;> rfl
  | cons c tail ih =>
    obtain ⟨hc, htail⟩ := List.forall_mem_cons.mp hds
    rw [List.map_cons, List.cons_append, scanDigits, if_pos hc, ih htail]

lemma scanUnsigned_digitsOf (negative : Bool) (n : Nat) {rest : List Symbol} (hrest : Ends rest) :
    scanUnsigned negative ((Numeral.digitsOf n).map some ++ rest) =
      some (⟨negative, Numeral.digitsOf n, [], none⟩, rest) := by
  obtain ⟨d, ds, hds, -, hzero⟩ := Numeral.exists_digits n
  have hwhole : scanWhole ((Numeral.digitsOf n).map some ++ rest) =
      some (Numeral.digitsOf n, rest) := by
    rw [scanWhole, scanDigits_append (fun c hc => Numeral.isDigit_of_mem hc) hrest, hds]
    have hno : ¬ (d = '0' ∧ ds ≠ []) := fun ⟨hd, hne⟩ => hne (hzero hd)
    simp only [if_neg hno]
  have hfraction : scanFraction rest = some ([], rest) := by
    cases rest with
    | nil => rfl
    | cons s tail =>
      rcases hrest s (by simp) with rfl | rfl | rfl <;> rfl
  have hexponent : scanExponent rest = some (none, rest) := by
    cases rest with
    | nil => rfl
    | cons s tail =>
      rcases hrest s (by simp) with rfl | rfl | rfl <;> rfl
  rw [scanUnsigned, hwhole]
  simp only [Option.bind_eq_bind, Option.bind_some, hfraction, hexponent]
  rfl

/-- **The end of a whole number is found.** -/
theorem scanNumber_ofInt (i : Int) {rest : List Symbol} (hrest : Ends rest) :
    scanNumber ((Numeral.ofInt i).text.map some ++ rest) = some (Numeral.ofInt i, rest) := by
  have hunsigned := scanUnsigned_digitsOf (decide (i < 0)) i.natAbs hrest
  by_cases hi : i < 0
  · have htext : (Numeral.ofInt i).text = '-' :: Numeral.digitsOf i.natAbs := by
      simp [Numeral.text, Numeral.ofInt, hi]
    rw [htext, List.map_cons, List.cons_append, scanNumber]
    simpa [Numeral.ofInt, hi] using hunsigned
  · have htext : (Numeral.ofInt i).text = Numeral.digitsOf i.natAbs := by
      simp [Numeral.text, Numeral.ofInt, hi]
    obtain ⟨d, ds, hds, hd, -⟩ := Numeral.exists_digits i.natAbs
    rw [htext, scanNumber]
    · simpa [Numeral.ofInt, hi] using hunsigned
    · rintro tail heq
      rw [hds] at heq
      obtain rfl : d = '-' := by simpa using (List.cons.inj heq).1
      simp at hd

/-- **A whole number means what was written**, if 64 bits can hold it. -/
theorem number?_ofInt {i : Int} (hlow : Width.minSigned64 ≤ i) (hhigh : i ≤ Width.max64) :
    number? (Numeral.ofInt i) = some (.whole i) := by
  by_cases hi : i < 0
  · obtain ⟨n, rfl⟩ : ∃ n : Nat, i = -n := ⟨i.natAbs, by omega⟩
    have hpos : 0 < n := by omega
    simp [number?, Numeral.ofInt, Numeral.valueOfDigits_digitsOf, hpos, hlow]
  · obtain ⟨n, rfl⟩ : ∃ n : Nat, i = n := ⟨i.natAbs, by omega⟩
    have hle : n ≤ Width.max64 := by omega
    simp [number?, Numeral.ofInt, Numeral.valueOfDigits_digitsOf, hle]

end Json

end MediaGraph
