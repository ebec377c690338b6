import MediaGraph.Arguments
import MediaGraph.Proofs.Number.Whole

/-!
# Values as whole numbers

A value stands for a whole number if it is one, if it is a truth value, if it is a floating-point
number without a fraction, or if it is a text that says one. Whoever asks for a whole number of 64
bits gets the one that the value stands for, with one exception: a floating-point number that is too
large in size comes out as the largest or the smallest number there is, and is not refused.

## Main definitions

* `MediaGraph.Value.Denotes` — the whole number that a value stands for.
* `MediaGraph.Value.ReadExactly` — reading a value gives the number that it stands for or nothing.
* `MediaGraph.Value.Overflows` — a floating-point number that is whole and needs more than 64 bits.

## Main results

* `MediaGraph.Value.asInt?_eq_some_iff` — what values other than such a number are read as.
* `MediaGraph.Value.readExactly_iff` — the values that are read exactly.
-/

set_option autoImplicit false

namespace MediaGraph.Value

/-! ## Standing for a whole number -/

/-- Whether a value stands for a whole number. -/
inductive Denotes : Value → Int → Prop where
  /-- A whole number stands for itself. -/
  | int (i : Int64) : Denotes (.int i) i.toInt
  /-- What is true stands for one, what is false for zero. -/
  | bool (b : Bool) : Denotes (.bool b) b.toNat
  /-- A floating-point number stands for the number that it is, if that is whole. -/
  | float {x : Binary64} {n : Int} (whole : x.toRat? = some (n : ℚ)) : Denotes (.float x) n
  /-- A text stands for the number that it says. -/
  | text {s : String} {n : Int} (spelt : Text.SaysInt s.toList n) : Denotes (.text s) n

/-- Whether a value is a floating-point number that is whole, but not one of 64 bits with a sign. -/
def Overflows (v : Value) (n : Int) : Prop :=
  (∃ x, v = .float x ∧ x.toRat? = some (n : ℚ)) ∧ (n < -2 ^ 63 ∨ 2 ^ 63 ≤ n)

/-- Whether a value, and an option with this value, is read as the number that it stands for and as
no other, and is refused if it stands for none of 64 bits. -/
structure ReadExactly (v : Value) : Prop where
  /-- The value is read as what it stands for. -/
  value : ∀ i : Int64, v.asInt? = some i ↔ v.Denotes i.toInt
  /-- An option with this value is read as what the value stands for. -/
  option : ∀ (a : Arguments) key default, a.get? key = some v →
    ∀ i : Int64, a.getOr .integer key default = .ok i ↔ v.Denotes i.toInt
  /-- An option is refused if its value stands for nothing. -/
  refused : ∀ (a : Arguments) key default, a.get? key = some v →
    (¬ ∃ i : Int64, v.Denotes i.toInt) →
    a.getOr .integer key default = .error (.typeMismatch key "integer" v.render)

variable {v : Value}

/-- A value stands for at most one number. -/
lemma Denotes.unique {m n : Int} (hm : v.Denotes m) (hn : v.Denotes n) : m = n := by
  cases hm with
  | int i => cases hn; rfl
  | bool b => cases hn; rfl
  | float whole =>
    obtain ⟨⟩ | ⟨⟩ | ⟨whole'⟩ | ⟨⟩ := hn
    rw [whole, Option.some.injEq] at whole'
    exact_mod_cast whole'
  | text spelt =>
    obtain ⟨⟩ | ⟨⟩ | ⟨⟩ | ⟨spelt'⟩ := hn
    rw [← Text.integer?_trim_eq_some_iff] at spelt spelt'
    exact Option.some.inj (spelt.symm.trans spelt')

/-! ## Reading -/

lemma toInt_clampInt (n : Int) : (clampInt n).toInt = max (-2 ^ 63) (min (2 ^ 63 - 1) n) := by
  rw [clampInt, Width.minSigned64, Width.maxSigned64]
  exact Int64.toInt_ofInt_of_le (by omega) (by omega)

lemma isSigned64_iff {n : Int} : Width.isSigned64 n = true ↔ -2 ^ 63 ≤ n ∧ n < 2 ^ 63 := by
  rw [Width.isSigned64, Bool.and_eq_true, decide_eq_true_eq, decide_eq_true_eq, Width.minSigned64,
    Width.maxSigned64]
  omega

/-- A text is read as the number that it says, if that has 64 bits. -/
lemma readInt?_trim_eq_some_iff {cs : List Char} {i : Int64} :
    readInt? (Text.trim cs) = some i ↔ Text.SaysInt cs i.toInt := by
  rw [← Text.integer?_trim_eq_some_iff, readInt?]
  cases Numeral.integer? (Text.trim cs) with
  | none => simp
  | some n =>
    simp only [isSigned64_iff, Option.ite_none_right_eq_some, Option.some.injEq]
    constructor
    · rintro ⟨⟨hlow, hhigh⟩, rfl⟩
      exact (Int64.toInt_ofInt_of_le hlow hhigh).symm
    · rintro rfl
      exact ⟨⟨i.le_toInt, i.toInt_lt⟩, Int64.ofInt_toInt i⟩

/-- A floating-point number is read as the number that it is, if that is whole and has 64 bits. -/
lemma asInt?_float_eq_some_iff {x : Binary64} (h : ∀ n, ¬ (float x).Overflows n) {i : Int64} :
    (float x).asInt? = some i ↔ x.toRat? = some (i.toInt : ℚ) := by
  rw [← Binary64.whole?_eq_some_iff, asInt?]
  cases hwhole : x.whole? with
  | none => simp
  | some n =>
    have hrange : -2 ^ 63 ≤ n ∧ n < 2 ^ 63 := by
      have hno := h n
      rw [Overflows, not_and_or, not_or] at hno
      have hn := hno.resolve_left (not_not.mpr ⟨x, rfl, Binary64.whole?_eq_some_iff.mp hwhole⟩)
      omega
    simp only [Option.map_some, Option.some.injEq, ← Int64.toInt_inj, toInt_clampInt]
    omega

/-- A value that does not overflow is read as the number that it stands for. -/
theorem asInt?_eq_some_iff (h : ∀ n, ¬ v.Overflows n) {i : Int64} :
    v.asInt? = some i ↔ v.Denotes i.toInt := by
  cases v with
  | int j =>
    rw [asInt?, Option.some.injEq]
    constructor
    · rintro rfl
      exact .int j
    · intro hden
      exact Int64.toInt_inj.mp ((Denotes.int j).unique hden)
  | bool b =>
    rw [asInt?, Option.some.injEq]
    have hread : (if b then 1 else 0 : Int64).toInt = b.toNat := by cases b <;> rfl
    constructor
    · rintro rfl
      rw [hread]
      exact .bool b
    · intro hden
      exact Int64.toInt_inj.mp (hread.trans ((Denotes.bool b).unique hden))
  | float x =>
    rw [asInt?_float_eq_some_iff h]
    exact ⟨.float, fun | .float whole => whole⟩
  | text s =>
    rw [asInt?, readInt?_trim_eq_some_iff]
    exact ⟨.text, fun | .text spelt => spelt⟩
  | list items =>
    rw [asInt?]
    exact ⟨fun hread => by simp at hread, fun hden => by cases hden⟩

/-- A value that overflows is read as the number of 64 bits that is nearest to it. -/
theorem asInt?_of_overflows {n : Int} (h : v.Overflows n) :
    v.asInt? = some (if n < 0 then Int64.minValue else Int64.maxValue) := by
  obtain ⟨⟨x, rfl, hx⟩, hn⟩ := h
  rw [asInt?, Binary64.whole?_eq_some_iff.mpr hx, Option.map_some, Option.some.injEq,
    ← Int64.toInt_inj, toInt_clampInt]
  split
  · rw [Int64.toInt_minValue]
    omega
  · rw [Int64.toInt_maxValue]
    omega

/-- An option is read as its value is. -/
lemma getOr_of_get? {a : Arguments} {key : String} (h : a.get? key = some v) (default : Int64) :
    a.getOr .integer key default =
      match v.asInt? with
      | some i => .ok i
      | none => .error (.typeMismatch key "integer" v.render) := by
  have hread : Kind.integer.coerce? v = v.asInt? := rfl
  rw [Arguments.getOr, h]
  dsimp only
  rw [hread]
  cases v.asInt? <;> rfl

/-- **A value is read exactly if and only if it does not overflow.** Whole numbers, truth values,
texts, lists and all floating-point numbers with a fraction or of 64 bits are read as what they
stand for, or refused. A floating-point number that is whole and larger in size is not refused, but
read as the largest or the smallest number of 64 bits. -/
theorem readExactly_iff (v : Value) :
    (v.ReadExactly ↔ ∀ n, ¬ v.Overflows n) ∧
    ∀ n, v.Overflows n → v.asInt? = some (if n < 0 then Int64.minValue else Int64.maxValue) := by
  refine ⟨⟨fun hexact n hn => ?_, fun h => ?_⟩, fun n => asInt?_of_overflows⟩
  · obtain ⟨⟨x, rfl, hx⟩, hn'⟩ := id hn
    have hden := (hexact.value _).mp (asInt?_of_overflows hn)
    have hsame := hden.unique (.float hx)
    -- no number of 64 bits is the one that was too large
    have hlow := (if n < 0 then Int64.minValue else Int64.maxValue).le_toInt
    have hhigh := (if n < 0 then Int64.minValue else Int64.maxValue).toInt_lt
    omega
  · have hvalue : ∀ i : Int64, v.asInt? = some i ↔ v.Denotes i.toInt := fun i =>
      asInt?_eq_some_iff h
    constructor
    case value => exact hvalue
    case option =>
      intro a key default hget i
      rw [getOr_of_get? hget, ← hvalue]
      cases v.asInt? <;> simp
    case refused =>
      intro a key default hget hnone
      have hread : v.asInt? = none := by
        rw [Option.eq_none_iff_forall_ne_some]
        exact fun i hi => hnone ⟨i, (hvalue i).mp hi⟩
      rw [getOr_of_get? hget, hread]

/-- The smallest power of two that needs more than 64 bits with a sign, as a floating-point
number. -/
def justTooLarge : Value := .float ⟨0x43E0000000000000⟩

/-- That number is read as the one before it, although it does not stand for that one. -/
theorem justTooLarge_not_readExactly :
    justTooLarge.Denotes (2 ^ 63) ∧ justTooLarge.asInt? = some Int64.maxValue ∧
    ¬ justTooLarge.ReadExactly := by
  have hden : justTooLarge.Denotes (2 ^ 63) := by
    refine .float ?_
    have hbiased : (⟨0x43E0000000000000⟩ : Binary64).biased = 1086 := by decide
    have hfraction : (⟨0x43E0000000000000⟩ : Binary64).fraction = 0 := by decide
    have hsign : ¬ 2 ^ 63 ≤ (0x43E0000000000000 : UInt64).toNat := by decide
    simp only [Binary64.toRat?, hbiased, hfraction, if_neg hsign]
    norm_num
  have hread : justTooLarge.asInt? = some Int64.maxValue := by decide
  refine ⟨hden, hread, fun hexact => ?_⟩
  have hsame := hden.unique ((hexact.value _).mp hread)
  rw [Int64.toInt_maxValue] at hsame
  omega

end MediaGraph.Value
