import Mathlib.Algebra.Order.Ring.Int
import Mathlib.Tactic.Lemma
import MediaGraph.Proofs.Graph.Construction

/-!
# Whole segments

A concatenation plays its streams in segments of one size, which the options `v` and `a` settle. The
number of segments is put among the arguments, as a number of 64 bits; whatever cannot be counted
that way is refused.

## Main definitions

* `MediaGraph.Arguments.ReadsAs` — an option, or its default, is a number.
* `MediaGraph.Arguments.ComesOutWhole` — some streams come out whole by the options.
* `MediaGraph.Arguments.Segments` — they make so many segments of so many streams each.

## Main results

* `MediaGraph.Arguments.forSegments_eq_ok_iff` — the arguments of a concatenation, and when there
  are any.
* `MediaGraph.Arguments.ComesOutWhole.exists_segments` — streams that come out whole have a number
  of segments.
-/

set_option autoImplicit false

namespace MediaGraph

namespace Arguments

variable {a b : Arguments} {count : Nat} {v w n : Int64}

/-- Whether an option is a number: it is not set and this is the default, or its value is read as
the number. -/
def ReadsAs (a : Arguments) (key : String) (default v : Int64) : Prop :=
  (a.get? key = none → v = default) ∧ ∀ x ∈ a.get? key, x.asInt? = some v

instance (a : Arguments) (key : String) (default v : Int64) :
    Decidable (a.ReadsAs key default v) :=
  inferInstanceAs (Decidable (_ ∧ _))

lemma getOr_integer_eq_ok_iff {key : String} {default : Int64} :
    a.getOr .integer key default = .ok v ↔ a.ReadsAs key default v := by
  unfold getOr ReadsAs
  cases a.get? key with
  | none => simp [eq_comm]
  | some x =>
    have hcoerce : Kind.integer.coerce? x = x.asInt? := rfl
    cases hx : x.asInt? <;> simp [hcoerce, hx]

/-- Whether by the options `count` streams can be divided into segments of `v` video and `w` audio
streams each. -/
structure ComesOutWhole (a : Arguments) (count : Nat) (v w : Int64) : Prop where
  /-- The option `v` says how many video streams a segment has, by default one. -/
  video : a.ReadsAs "v" 1 v
  /-- The option `a` says how many audio streams a segment has, by default none. -/
  audio : a.ReadsAs "a" 0 w
  /-- There are not fewer than no video streams. -/
  video_nonneg : 0 ≤ v.toInt
  /-- There are not fewer than no audio streams. -/
  audio_nonneg : 0 ≤ w.toInt
  /-- The size of a segment has 64 bits. -/
  size_le : v.toInt + w.toInt ≤ 2 ^ 63 - 1
  /-- A segment is not empty. -/
  size_pos : 0 < v.toInt + w.toInt
  /-- There are streams. -/
  count_pos : 0 < count
  /-- The number of streams has 64 bits. -/
  count_le : count ≤ 2 ^ 63 - 1
  /-- No stream is left over. -/
  whole : v.toInt + w.toInt ∣ count

/-- By the options, `count` streams make `n` segments of `v` video and `w` audio streams each. -/
structure Segments (a : Arguments) (count : Nat) (v w n : Int64) : Prop
    extends a.ComesOutWhole count v w where
  /-- All streams are in segments. -/
  number : n.toInt * (v.toInt + w.toInt) = count

/-- A number up to the largest one keeps its value in 64 bits. -/
lemma toInt_ofNat_of_le {n : Nat} (h : n ≤ Width.maxSigned64) : (Int64.ofNat n).toInt = n := by
  rw [Width.maxSigned64] at h
  exact Int64.toInt_ofNat_of_lt (by omega)

/-- Streams come out whole if their number can be divided by the size of a segment. -/
lemma whole_iff {n : Int64} {size : Nat} (hpos : 0 < count) (hle : count ≤ 2 ^ 63 - 1) :
    n.toInt * size = count ↔
      size ≠ 0 ∧ count % size = 0 ∧ n = Int64.ofNat (count / size) := by
  have hquotient : (Int64.ofNat (count / size)).toInt = (count : Int) / size := by
    have hless : count / size ≤ count := Nat.div_le_self count size
    rw [toInt_ofNat_of_le (by rw [Width.maxSigned64]; omega), Int.natCast_ediv]
  rw [← Nat.dvd_iff_mod_eq_zero, ← Int.natCast_dvd_natCast, ← Int64.toInt_inj, hquotient]
  constructor
  · intro hwhole
    have hne : size ≠ 0 := by
      rintro rfl
      omega
    exact ⟨hne, hwhole ▸ Int.dvd_mul_left _ _, Int.eq_ediv_of_mul_eq_left (by omega) hwhole⟩
  · rintro ⟨-, hdvd, hn⟩
    rw [hn, Int.ediv_mul_cancel hdvd]

/-- The arguments of a concatenation are the given ones with the number of segments set, if the
streams come out whole. -/
theorem forSegments_eq_ok_iff :
    a.forSegments count = .ok b ↔
      ∃ v w n, a.Segments count v w n ∧ b = a.set "n" (.int n) := by
  unfold forSegments
  simp only [except_bind_eq_ok_iff, except_unless_eq_ok_iff, Width.maxSigned64]
  constructor
  · rintro ⟨v, hv, w, hw, hneg, hsize, hcount, hbroken, h⟩
    obtain ⟨hvneg, hwneg⟩ := not_or.mp hneg
    obtain ⟨hzero, hnone, hrest⟩ : (v.toInt + w.toInt).toNat ≠ 0 ∧ count ≠ 0 ∧
        count % (v.toInt + w.toInt).toNat = 0 := by
      simpa only [not_or, not_not, ne_eq] using hbroken
    have hnat : ((v.toInt + w.toInt).toNat : Int) = v.toInt + w.toInt :=
      Int.toNat_of_nonneg (by omega)
    have hnumber := (whole_iff (by omega) (by omega)).mpr ⟨hzero, hrest, rfl⟩
    have hwhole := Int.natCast_dvd_natCast.mpr (Nat.dvd_of_mod_eq_zero hrest)
    rw [hnat] at hnumber hwhole
    refine ⟨v, w, _, ⟨⟨getOr_integer_eq_ok_iff.mp hv, getOr_integer_eq_ok_iff.mp hw, ?_, ?_, ?_, ?_, ?_, ?_, hwhole⟩, hnumber⟩,
      (Except.ok.inj h).symm⟩ <;> omega
  · rintro ⟨v, w, n, ⟨h, hnumber⟩, rfl⟩
    have hv := h.video_nonneg
    have hw := h.audio_nonneg
    have hsize := h.size_le
    have hpos := h.count_pos
    have hle := h.count_le
    rw [← Int.toNat_of_nonneg (Int.add_nonneg hv hw),
      whole_iff hpos hle] at hnumber
    obtain ⟨hzero, hrest, rfl⟩ := hnumber
    refine ⟨v, getOr_integer_eq_ok_iff.mpr h.video, w, getOr_integer_eq_ok_iff.mpr h.audio,
      by omega, by omega, by omega, ?_, rfl⟩
    simpa only [not_or, not_not, ne_eq] using ⟨hzero, hpos.ne', hrest⟩

/-- There is at least one segment. -/
lemma Segments.one_le (h : a.Segments count v w n) : 1 ≤ n.toInt := by
  by_contra hless
  have hproduct : n.toInt * (v.toInt + w.toInt) ≤ 0 :=
    mul_nonpos_of_nonpos_of_nonneg (by omega) h.size_pos.le
  have hcount := h.count_pos
  rw [h.number] at hproduct
  omega

/-- Streams that come out whole make some number of segments. -/
lemma ComesOutWhole.exists_segments (h : a.ComesOutWhole count v w) :
    ∃ n, a.Segments count v w n := by
  have hpos := h.size_pos
  have hnat : ((v.toInt + w.toInt).toNat : Int) = v.toInt + w.toInt :=
    Int.toNat_of_nonneg hpos.le
  have hrest : count % (v.toInt + w.toInt).toNat = 0 := by
    rw [← Nat.dvd_iff_mod_eq_zero, ← Int.natCast_dvd_natCast, hnat]
    exact h.whole
  have hnumber := (whole_iff h.count_pos h.count_le).mpr ⟨by omega, hrest, rfl⟩
  rw [hnat] at hnumber
  exact ⟨_, h, hnumber⟩

end Arguments

end MediaGraph
