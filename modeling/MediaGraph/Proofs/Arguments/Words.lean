import MediaGraph.Proofs.Arguments.Segments

/-!
# Counting segments in machine words

The number of segments comes from an addition, a remainder and a division of numbers that callers
choose. A machine does these with words of 64 bits: a sum may not fit, and a remainder or a quotient
by zero, or of the smallest word by minus one, stops the program. In the order in which the options
are checked none of this ever happens, and the words are the numbers that they stand for.

## Main definitions

* `MediaGraph.Word.sum?`, `Word.remainder?`, `Word.quotient?` — arithmetic of words, with no result
  where a machine has none.
* `MediaGraph.Arguments.forSegmentsInWords` — the arguments of a concatenation, counted in words.

## Main results

* `MediaGraph.Arguments.forSegmentsInWords_eq` — counting in words never stops, and gives the same.
-/

set_option autoImplicit false

namespace MediaGraph

/-! ## Words -/

namespace Word

/-- The word for a number without a sign, if there is one. -/
def ofCount? (n : Nat) : Option Int64 :=
  if (n : Int) ≤ Width.maxSigned64 then some (Int64.ofNat n) else none

/-- The sum of two words, if it is one. -/
def sum? (a b : Int64) : Option Int64 :=
  if Width.isSigned64 (a.toInt + b.toInt) then some (a + b) else none

/-- Whether a machine stops when it divides a word by another. -/
def Traps (a b : Int64) : Prop := b = 0 ∨ a = Int64.minValue ∧ b = -1

instance (a b : Int64) : Decidable (Traps a b) := inferInstanceAs (Decidable (_ ∨ _))

/-- The remainder of a division, unless the machine stops. -/
def remainder? (a b : Int64) : Option Int64 := if Traps a b then none else some (a % b)

/-- The quotient of a division, unless the machine stops. -/
def quotient? (a b : Int64) : Option Int64 := if Traps a b then none else some (a / b)

variable {a b : Int64}

/-- Nothing stops a division by a word above zero. -/
lemma not_traps (hb : 0 < b.toInt) : ¬ Traps a b := by
  rintro (rfl | ⟨-, rfl⟩)
  · simp at hb
  · exact absurd hb (by decide)

lemma remainder?_of_pos (hb : 0 < b.toInt) : remainder? a b = some (a % b) :=
  if_neg (not_traps hb)

lemma quotient?_of_pos (hb : 0 < b.toInt) : quotient? a b = some (a / b) :=
  if_neg (not_traps hb)

/-- A sum of numbers without a sign that fits is not wrapped around. -/
lemma exists_sum? (ha : 0 ≤ a.toInt) (hb : 0 ≤ b.toInt)
    (h : a.toInt + b.toInt ≤ Width.maxSigned64) :
    ∃ c, sum? a b = some c ∧ c.toInt = a.toInt + b.toInt := by
  have hfits : Width.isSigned64 (a.toInt + b.toInt) := by
    rw [Width.isSigned64, Bool.and_eq_true, decide_eq_true_eq, decide_eq_true_eq, Width.minSigned64]
    omega
  rw [Width.maxSigned64] at h
  refine ⟨a + b, if_pos hfits, ?_⟩
  rw [Int64.toInt_add]
  exact Int.bmod_eq_of_le (by omega) (by omega)

/-- A sum that is too large is found out. -/
lemma sum?_eq_none (h : Width.maxSigned64 < a.toInt + b.toInt) : sum? a b = none := by
  have hfits : ¬ Width.isSigned64 (a.toInt + b.toInt) := by
    rw [Width.isSigned64, Bool.and_eq_true, decide_eq_true_eq, decide_eq_true_eq]
    omega
  exact if_neg hfits

lemma exists_ofCount? {n : Nat} (h : n ≤ Width.maxSigned64) :
    ∃ c, ofCount? n = some c ∧ c.toInt = n :=
  ⟨_, if_pos h, Arguments.toInt_ofNat_of_le h⟩

lemma ofCount?_eq_none {n : Nat} (h : Width.maxSigned64 < n) : ofCount? n = none :=
  if_neg (by omega)

/-- Words that stand for numbers without a sign are divided like these. -/
lemma toInt_mod {m n : Nat} (ha : a.toInt = m) (hb : b.toInt = n) :
    (a % b).toInt = (m % n : Nat) := by
  rw [Int64.toInt_mod, ha, hb, Int.ofNat_tmod]

lemma toInt_div {m n : Nat} (ha : a.toInt = m) (hb : b.toInt = n) :
    (a / b).toInt = (m / n : Nat) := by
  have hne : b ≠ -1 := by
    rintro rfl
    have hsign : (-1 : Int64).toInt = -1 := by decide
    omega
  rw [Int64.toInt_div_of_ne_right a b hne, ha, hb, Int.ofNat_tdiv]

end Word

/-! ## Segments -/

namespace Arguments

/-- The number of segments of `v` video and `w` audio streams in `count` streams, counted in words.
There is no result if a division stops the machine. -/
def segmentsInWords (v w : Int64) (count : Nat) : Option (Except Error Int64) :=
  let broken : Error := .invalid (.brokenSegment count v.toInt w.toInt)
  if v < 0 ∨ w < 0 then some (.error (.invalid (.negativeSegment v.toInt w.toInt)))
  else
    match Word.sum? v w, Word.ofCount? count with
    | none, _ => some (.error (.invalid (.segmentOverflow v.toInt w.toInt)))
    | some _, none => some (.error (.invalid .tooManyStreams))
    | some size, some streams =>
      if size = 0 ∨ streams = 0 then some (.error broken)
      else do
        let rest ← Word.remainder? streams size
        if rest ≠ 0 then
          return .error broken
        let segments ← Word.quotient? streams size
        return .ok segments

/-- The arguments of a concatenation of `count` streams, counted in words. -/
def forSegmentsInWords (a : Arguments) (count : Nat) : Option (Except Error Arguments) :=
  match a.getOr .integer "v" 1, a.getOr .integer "a" 0 with
  | .error e, _ | .ok _, .error e => some (.error e)
  | .ok v, .ok w => do
    let segments ← segmentsInWords v w count
    return segments.map fun n => a.set "n" (.int n)

/-- Words that stand for the size of a segment and the number of streams are divided like these, if
the size is not zero. -/
lemma segments_of_words {size streams : Int64} {m n : Nat} (hsize : size.toInt = n) (hn : n ≠ 0)
    (hstreams : streams.toInt = m) :
    ∃ rest segments, Word.remainder? streams size = some rest ∧
      Word.quotient? streams size = some segments ∧ (rest = 0 ↔ m % n = 0) ∧
      segments = Int64.ofNat (m / n) := by
  have hpos : 0 < size.toInt := by omega
  refine ⟨_, _, Word.remainder?_of_pos hpos, Word.quotient?_of_pos hpos, ?_, ?_⟩
  · rw [← Int64.toInt_inj, Word.toInt_mod hstreams hsize, Int64.toInt_zero]
    exact Int.natCast_eq_zero
  · have hle : (m : Int) ≤ Width.maxSigned64 := by
      rw [← hstreams, Width.maxSigned64]
      exact Int.le_of_lt_add_one streams.toInt_lt
    have hless : m / n ≤ m := Nat.div_le_self m n
    rw [← Int64.toInt_inj, Word.toInt_div hstreams hsize, toInt_ofNat_of_le (by omega)]

/-- The number of segments of `v` video and `w` audio streams in `count` streams, counted in
numbers. -/
def segments (v w : Int64) (count : Nat) : Except Error Int64 :=
  let size := (v.toInt + w.toInt).toNat
  if v.toInt < 0 ∨ w.toInt < 0 then .error (.invalid (.negativeSegment v.toInt w.toInt))
  else if Width.maxSigned64 < v.toInt + w.toInt then
    .error (.invalid (.segmentOverflow v.toInt w.toInt))
  else if Width.maxSigned64 < count then .error (.invalid .tooManyStreams)
  else if size = 0 ∨ count = 0 ∨ count % size ≠ 0 then
    .error (.invalid (.brokenSegment count v.toInt w.toInt))
  else .ok (Int64.ofNat (count / size))

/-- The arguments of a concatenation are the given ones with the number of segments. -/
lemma forSegments_eq (a : Arguments) (count : Nat) :
    a.forSegments count = do
      let v ← a.getOr .integer "v" 1
      let w ← a.getOr .integer "a" 0
      let n ← segments v w count
      return a.set "n" (.int n) := by
  refine bind_congr fun v => bind_congr fun w => ?_
  unfold segments
  by_cases hneg : v.toInt < 0 ∨ w.toInt < 0
  · simp only [if_pos hneg]
    rfl
  by_cases hsum : Width.maxSigned64 < v.toInt + w.toInt
  · simp only [if_neg hneg, if_pos hsum]
    rfl
  by_cases hcount : Width.maxSigned64 < count
  · simp only [if_neg hneg, if_neg hsum, if_pos hcount]
    rfl
  simp only [if_neg hneg, if_neg hsum, if_neg hcount]
  split <;> rfl

/-- Counting segments in words gives the number that counting in numbers gives.

**Proof sketch.** The checks are made in the same order. Behind those of the options the words for
the size of a segment and for the number of streams stand for these numbers. -/
lemma segmentsInWords_eq (v w : Int64) (count : Nat) :
    segmentsInWords v w count = some (segments v w count) := by
  have hsign : (v < 0 ∨ w < 0) ↔ v.toInt < 0 ∨ w.toInt < 0 := by
    simp [Int64.lt_iff_toInt_lt]
  unfold segmentsInWords segments
  simp only [hsign]
  by_cases hneg : v.toInt < 0 ∨ w.toInt < 0
  · simp only [if_pos hneg]
  simp only [if_neg hneg]
  by_cases hsum : Width.maxSigned64 < v.toInt + w.toInt
  · simp only [Word.sum?_eq_none hsum, if_pos hsum]
  obtain ⟨size, hsize, hsizeInt⟩ :=
    Word.exists_sum? (a := v) (b := w) (by omega) (by omega) (by omega)
  simp only [hsize, if_neg hsum]
  by_cases hcount : Width.maxSigned64 < count
  · simp only [Word.ofCount?_eq_none hcount, if_pos hcount]
  obtain ⟨streams, hstreams, hstreamsInt⟩ := Word.exists_ofCount? (n := count) (by omega)
  simp only [hstreams, if_neg hcount]
  rw [← Int.toNat_of_nonneg (a := v.toInt + w.toInt) (by omega)] at hsizeInt
  have hzero : (size = 0 ∨ streams = 0) ↔ (v.toInt + w.toInt).toNat = 0 ∨ count = 0 := by
    rw [← Int64.toInt_inj, ← Int64.toInt_inj, hsizeInt, hstreamsInt, Int64.toInt_zero,
      Int.natCast_eq_zero, Int.natCast_eq_zero]
  simp only [hzero, ← or_assoc]
  by_cases hnothing : (v.toInt + w.toInt).toNat = 0 ∨ count = 0
  · simp only [if_pos hnothing, if_pos (Or.inl hnothing)]
  obtain ⟨hsizeZero, hcountZero⟩ := not_or.mp hnothing
  obtain ⟨rest, n, hrest, hn, hwhole, rfl⟩ := segments_of_words hsizeInt hsizeZero hstreamsInt
  simp only [if_neg hnothing, hrest, hn]
  by_cases hover : rest = 0
  · simp [hover, hsizeZero, hcountZero, hwhole.mp hover]
  · simp [hover, mt hwhole.mpr hover]

/-- **Counting in machine words never stops the program, and gives the same.** No sum is wrapped
around, and nothing is divided by zero.

**Proof sketch.** The options are read alike, and the segments are counted alike
(`segmentsInWords_eq`): words are divided only if the size of a segment is above zero. -/
theorem forSegmentsInWords_eq (a : Arguments) (count : Nat) :
    a.forSegmentsInWords count = some (a.forSegments count) := by
  rw [forSegments_eq, forSegmentsInWords]
  cases a.getOr .integer "v" 1 with
  | error e => rfl
  | ok v =>
    cases a.getOr .integer "a" 0 with
    | error e => rfl
    | ok w =>
      simp only [segmentsInWords_eq]
      change _ = some (segments v w count >>= fun n => .ok (a.set "n" (.int n)))
      cases segments v w count <;> rfl

end Arguments

end MediaGraph
