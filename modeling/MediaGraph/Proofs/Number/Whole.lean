import Mathlib.Algebra.Order.Field.Power
import Mathlib.Data.List.TakeWhile
import Mathlib.Data.Rat.Cast.Defs
import Mathlib.Tactic.FieldSimp
import Mathlib.Tactic.Lemma
import Mathlib.Tactic.NormNum
import Mathlib.Tactic.Positivity
import Mathlib.Tactic.Ring
import MediaGraph.Number.Binary64
import MediaGraph.Text.Blank

/-!
# Whole numbers in texts and in bits

A text stands for a whole number if it is one or more digits behind a sign or none, with nothing
but blanks around. A pattern of bits stands for a rational number, which may be whole. Both meanings
are said here without any reader, and the readers find exactly the whole numbers that are meant.

## Main definitions

* `MediaGraph.Numeral.Spells` — the characters of a whole number.
* `MediaGraph.Text.SaysInt` — a text that stands for a whole number.
* `MediaGraph.Binary64.toRat?` — the rational number that a pattern of bits stands for.

## Main results

* `MediaGraph.Text.integer?_trim_eq_some_iff` — what is read from a text without its blanks.
* `MediaGraph.Binary64.whole?_eq_some_iff` — what is read from a pattern of bits.
-/

set_option autoImplicit false

namespace MediaGraph

/-! ## Digits and signs -/

namespace Numeral

/-- Whether characters are digits, one or more of them. -/
def IsDigits (cs : List Char) : Prop := cs ≠ [] ∧ ∀ c ∈ cs, c.isDigit = true

/-- Whether characters are those of a whole number: digits, behind a sign or none. -/
inductive Spells : List Char → Int → Prop where
  /-- Digits alone. -/
  | unsigned {ds : List Char} (digits : IsDigits ds) : Spells ds (Nat.ofDigitChars 10 ds 0)
  /-- Digits behind a plus sign. -/
  | plus {ds : List Char} (digits : IsDigits ds) : Spells ('+' :: ds) (Nat.ofDigitChars 10 ds 0)
  /-- Digits behind a minus sign. -/
  | minus {ds : List Char} (digits : IsDigits ds) :
    Spells ('-' :: ds) (-(Nat.ofDigitChars 10 ds 0 : Nat))

lemma digits?_eq_some_iff {cs : List Char} {n : Nat} :
    digits? cs = some n ↔ IsDigits cs ∧ n = Nat.ofDigitChars 10 cs 0 := by
  rw [digits?, IsDigits, valueOfDigits, ← Nat.ofDigitChars_eq_foldl]
  simp only [List.all_eq_true, Option.ite_none_right_eq_some, Option.some.injEq, eq_comm (a := n)]

lemma integer?_minus (ds : List Char) :
    integer? ('-' :: ds) = Option.map (fun n : Nat => -(n : Int)) (digits? ds) := by
  simp only [integer?]
  cases digits? ds <;> rfl

lemma integer?_plus (ds : List Char) :
    integer? ('+' :: ds) = Option.map (fun n : Nat => (n : Int)) (digits? ds) := by
  rw [integer?, natural?]
  · cases digits? ds <;> rfl
  · simp

lemma integer?_unsigned {cs : List Char} (hminus : ∀ ds, cs ≠ '-' :: ds)
    (hplus : ∀ ds, cs ≠ '+' :: ds) :
    integer? cs = Option.map (fun n : Nat => (n : Int)) (digits? cs) := by
  simp only [integer?, natural?]
  cases digits? cs <;> rfl

/-- Digits do not start with a sign. -/
lemma IsDigits.ne_cons {ds : List Char} (h : IsDigits ds) {c : Char} (hc : c.isDigit = false)
    (rest : List Char) : ds ≠ c :: rest := by
  rintro rfl
  simp [h.2 c List.mem_cons_self] at hc

/-- What is made of the digits that are read is made of their value. -/
lemma map_digits?_eq_some_iff {ds : List Char} {n : Int} (f : Nat → Int) :
    Option.map f (digits? ds) = some n ↔ IsDigits ds ∧ f (Nat.ofDigitChars 10 ds 0) = n := by
  rw [Option.map_eq_some_iff]
  constructor
  · intro ⟨m, hm, hn⟩
    obtain ⟨hdigits, rfl⟩ := digits?_eq_some_iff.mp hm
    exact ⟨hdigits, hn⟩
  · intro ⟨hdigits, hn⟩
    exact ⟨_, digits?_eq_some_iff.mpr ⟨hdigits, rfl⟩, hn⟩

/-- The reader of whole numbers reads what the characters spell. -/
lemma integer?_eq_some_iff {cs : List Char} {n : Int} : integer? cs = some n ↔ Spells cs n := by
  constructor
  · intro h
    by_cases hminus : ∃ ds, cs = '-' :: ds
    · obtain ⟨ds, rfl⟩ := hminus
      rw [integer?_minus] at h
      obtain ⟨hdigits, rfl⟩ := (map_digits?_eq_some_iff _).mp h
      exact .minus hdigits
    · by_cases hplus : ∃ ds, cs = '+' :: ds
      · obtain ⟨ds, rfl⟩ := hplus
        rw [integer?_plus] at h
        obtain ⟨hdigits, rfl⟩ := (map_digits?_eq_some_iff _).mp h
        exact .plus hdigits
      · rw [integer?_unsigned (not_exists.mp hminus) (not_exists.mp hplus)] at h
        obtain ⟨hdigits, rfl⟩ := (map_digits?_eq_some_iff _).mp h
        exact .unsigned hdigits
  · intro h
    cases h with
    | unsigned digits =>
      rw [integer?_unsigned (digits.ne_cons (by decide)) (digits.ne_cons (by decide))]
      exact (map_digits?_eq_some_iff _).mpr ⟨digits, rfl⟩
    | plus digits =>
      rw [integer?_plus]
      exact (map_digits?_eq_some_iff _).mpr ⟨digits, rfl⟩
    | minus digits =>
      rw [integer?_minus]
      exact (map_digits?_eq_some_iff _).mpr ⟨digits, rfl⟩

end Numeral

/-! ## Blanks around a number -/

namespace Text

/-- Whether a text stands for a whole number: its characters are those of the number, with blanks
around or none. -/
def SaysInt (cs : List Char) (n : Int) : Prop :=
  ∃ front body back, cs = front ++ body ++ back ∧ (∀ c ∈ front, isBlank c = true) ∧
    (∀ c ∈ back, isBlank c = true) ∧ Numeral.Spells body n

/-- Trimming takes away blanks in front and behind. -/
lemma exists_eq_append_trim (cs : List Char) :
    ∃ front back, cs = front ++ trim cs ++ back ∧ (∀ c ∈ front, isBlank c = true) ∧
      ∀ c ∈ back, isBlank c = true := by
  have hblank : ∀ (ds : List Char), ∀ c ∈ ds.takeWhile isBlank, isBlank c = true := fun ds c hc =>
    List.mem_takeWhile_imp hc
  refine ⟨cs.takeWhile isBlank, ((cs.dropWhile isBlank).reverse.takeWhile isBlank).reverse, ?_,
    hblank cs, fun c hc => hblank _ c (List.mem_reverse.mp hc)⟩
  rw [trim, List.append_assoc, ← List.reverse_append, List.takeWhile_append_dropWhile,
    List.reverse_reverse, List.takeWhile_append_dropWhile]

/-- Trimming leaves what is between blanks and holds none. -/
lemma trim_append {front body back : List Char} (hfront : ∀ c ∈ front, isBlank c = true)
    (hback : ∀ c ∈ back, isBlank c = true) (hbody : ∀ c ∈ body, isBlank c = false) :
    trim (front ++ body ++ back) = body := by
  have hdrop : ∀ {cs : List Char}, (∀ c ∈ cs, isBlank c = false) → cs.dropWhile isBlank = cs := by
    intro cs hcs
    cases cs with
    | nil => rfl
    | cons c rest => simp [hcs c List.mem_cons_self]
  cases body with
  | nil =>
    have hall : ∀ c ∈ front ++ back, isBlank c = true := by
      simpa [or_imp, forall_and] using ⟨hfront, hback⟩
    simp only [List.append_nil]
    rw [trim, List.dropWhile_eq_nil_iff.mpr hall]
    rfl
  | cons c rest =>
    have hc := hbody c List.mem_cons_self
    rw [trim, List.append_assoc, List.dropWhile_append_of_pos hfront]
    have hkeep : ((c :: rest) ++ back).dropWhile isBlank = (c :: rest) ++ back := by simp [hc]
    rw [hkeep, List.reverse_append,
      List.dropWhile_append_of_pos fun c hc => hback c (List.mem_reverse.mp hc),
      hdrop fun c hc => hbody c (List.mem_reverse.mp hc), List.reverse_reverse]

lemma isBlank_of_isDigit {c : Char} (h : c.isDigit = true) : isBlank c = false := by
  have hrange : 48 ≤ c.toNat ∧ c.toNat ≤ 57 := by
    simp only [Char.isDigit, Bool.and_eq_true, decide_eq_true_eq, ge_iff_le,
      UInt32.le_iff_toNat_le] at h
    exact h
  simp only [isBlank, blankRanges, List.any_cons, List.any_nil, Bool.or_false, Bool.or_eq_false_iff,
    Bool.and_eq_false_iff, decide_eq_false_iff_not]
  omega

/-- The characters of a number are not blank. -/
lemma not_isBlank_of_spells {cs : List Char} {n : Int} (h : Numeral.Spells cs n) :
    ∀ c ∈ cs, isBlank c = false := by
  have hdigits : ∀ {ds : List Char}, Numeral.IsDigits ds → ∀ c ∈ ds, isBlank c = false :=
    fun hds c hc => isBlank_of_isDigit (hds.2 c hc)
  cases h with
  | unsigned digits => exact hdigits digits
  | plus digits => exact List.forall_mem_cons.mpr ⟨by decide, hdigits digits⟩
  | minus digits => exact List.forall_mem_cons.mpr ⟨by decide, hdigits digits⟩

/-- **Without its blanks a text is read as the whole number that it stands for.** -/
theorem integer?_trim_eq_some_iff {cs : List Char} {n : Int} :
    Numeral.integer? (trim cs) = some n ↔ SaysInt cs n := by
  rw [Numeral.integer?_eq_some_iff]
  constructor
  · intro h
    obtain ⟨front, back, hsplit, hfront, hback⟩ := exists_eq_append_trim cs
    exact ⟨front, trim cs, back, hsplit, hfront, hback, h⟩
  · rintro ⟨front, body, back, rfl, hfront, hback, h⟩
    rwa [trim_append hfront hback (not_isBlank_of_spells h)]

end Text

/-! ## Patterns of bits -/

namespace Magnitude

/-- The rational number that a magnitude stands for. -/
def toRat (x : Magnitude) : ℚ := x.significand * 2 ^ x.exponent

lemma den_pos (x : Magnitude) : 0 < x.den := Nat.pow_pos (by decide)

lemma toRat_eq_div (x : Magnitude) : x.toRat = (x.num : ℚ) / x.den := by
  obtain ⟨significand, k | k⟩ := x
  · simp [toRat, num, den]
  · simp [toRat, num, den, zpow_negSucc, div_eq_mul_inv, Int.neg_negSucc]

/-- A magnitude is a whole number exactly if it can be divided without a rest. -/
lemma toRat_eq_intCast_iff {x : Magnitude} {n : Int} :
    x.toRat = n ↔ x.num % x.den = 0 ∧ ((x.num / x.den : Nat) : Int) = n := by
  have hpos := x.den_pos
  have hne : (x.den : ℚ) ≠ 0 := by exact_mod_cast hpos.ne'
  rw [toRat_eq_div, div_eq_iff hne]
  constructor
  · intro h
    have hmul : (x.num : Int) = n * x.den := by exact_mod_cast h
    have hdvd : x.den ∣ x.num := Int.natCast_dvd_natCast.mp (hmul ▸ Int.dvd_mul_left _ _)
    refine ⟨Nat.mod_eq_zero_of_dvd hdvd, ?_⟩
    rw [Int.natCast_ediv]
    exact Int.ediv_eq_of_eq_mul_left (by omega) hmul
  · rintro ⟨hrest, rfl⟩
    exact_mod_cast (Nat.div_mul_cancel (Nat.dvd_of_mod_eq_zero hrest)).symm

end Magnitude

namespace Binary64

/-- The eleven bits of the exponent, which is kept with 1023 added. -/
def biased (x : Binary64) : Nat := x.bits.toNat / 2 ^ 52 % 2 ^ 11

/-- The 52 bits of the fraction. -/
def fraction (x : Binary64) : Nat := x.bits.toNat % 2 ^ 52

/-- The rational number that a pattern stands for, by its sign, its exponent and its fraction. With
the largest exponent it is no number or an infinity; with the smallest one there is no hidden bit in
front of the fraction. -/
def toRat? (x : Binary64) : Option ℚ :=
  let sign : ℚ := if 2 ^ 63 ≤ x.bits.toNat then -1 else 1
  if x.biased = 2047 then none
  else if x.biased = 0 then some (sign * (x.fraction / 2 ^ 52) * 2 ^ (-1022 : Int))
  else some (sign * (1 + x.fraction / 2 ^ 52) * 2 ^ ((x.biased : Int) - 1023))

/-- A pattern stands for its magnitude with its sign. -/
lemma toRat?_of_finite {x : Binary64} {negative : Bool} {size : Magnitude}
    (h : x.form = .finite negative size) :
    x.toRat? = some ((if negative then -1 else 1) * size.toRat) := by
  have hscale : ∀ e : Int, (2 : ℚ) ^ (e - 1023) = 2 ^ (e - 1075) * 2 ^ 52 := by
    intro e
    rw [← zpow_natCast, ← zpow_add₀ (by norm_num)]
    congr 1
    omega
  have hsmall : (2 : ℚ) ^ (-1022 : Int) = 2 ^ (-1074 : Int) * 2 ^ 52 := hscale 1
  have hsign : x.negative = decide (2 ^ 63 ≤ x.bits.toNat) := rfl
  have hbiased : x.bits.toNat / hiddenBit % 2048 = x.biased := rfl
  have hfraction : x.bits.toNat % hiddenBit = x.fraction := rfl
  have hhidden : (hiddenBit : ℚ) = 2 ^ 52 := by norm_num [hiddenBit]
  simp only [form, hbiased, hfraction, hsign] at h
  rw [toRat?]
  split at h
  · split at h <;> cases h
  · next hlast =>
    rw [if_neg hlast]
    split at h
    · next hfirst =>
      obtain ⟨rfl, rfl⟩ := Form.finite.inj h
      simp only [if_pos hfirst, Magnitude.toRat, hsmall, decide_eq_true_eq]
      congr 1
      ring
    · next hfirst =>
      obtain ⟨rfl, rfl⟩ := Form.finite.inj h
      simp only [if_neg hfirst, Magnitude.toRat, hscale, decide_eq_true_eq, Nat.cast_add, hhidden]
      congr 1
      ring

/-- A pattern that is no number or an infinity stands for nothing. -/
lemma toRat?_of_not_finite {x : Binary64}
    (h : ∀ negative size, x.form ≠ .finite negative size) : x.toRat? = none := by
  have hlast : x.biased = 2047 := by
    by_contra hlast
    have hbiased : x.bits.toNat / hiddenBit % 2048 ≠ 2047 := hlast
    by_cases hfirst : x.bits.toNat / hiddenBit % 2048 = 0
    · exact h _ _ (by rw [form, if_neg hbiased, if_pos hfirst])
    · exact h _ _ (by rw [form, if_neg hbiased, if_neg hfirst])
  rw [toRat?, if_pos hlast]

/-- **A pattern of bits is read as a whole number exactly if it stands for one.** -/
theorem whole?_eq_some_iff {x : Binary64} {n : Int} :
    x.whole? = some n ↔ x.toRat? = some (n : ℚ) := by
  rw [whole?]
  cases hform : x.form with
  | nan => simp [toRat?_of_not_finite (x := x) (by simp [hform])]
  | infinite negative => simp [toRat?_of_not_finite (x := x) (by simp [hform])]
  | finite negative size =>
    rw [toRat?_of_finite hform, Option.some.injEq]
    have hwhole := @Magnitude.toRat_eq_intCast_iff size
    cases negative with
    | false =>
      simp only [Bool.false_eq_true, if_false, one_mul, hwhole, Option.ite_none_right_eq_some,
        Option.some.injEq]
    | true =>
      have hflip : -1 * size.toRat = n ↔ size.toRat = ((-n : Int) : ℚ) := by
        push_cast
        rw [neg_one_mul, neg_eq_iff_eq_neg]
      simp only [if_true, hflip, hwhole, Option.ite_none_right_eq_some, Option.some.injEq]
      rw [neg_eq_iff_eq_neg]

end Binary64

end MediaGraph
