import Mathlib.Algebra.Group.Nat.Defs
import Mathlib.Data.List.Nodup
import Mathlib.Tactic.Lemma
import MediaGraph.LabelSupply
import MediaGraph.Settings

/-!
# The labels that a supply has left

A supply hands out its free numbers one after the other: those from its counter on, below the
limit, whose label is not in use. If none is left it overflows. With a plain word as its stem all of
these numbers make labels, no two of them the same.

## Main definitions

* `MediaGraph.LabelSupply.freeNumbers` — the numbers that are left, ascending.
* `MediaGraph.LabelSupply.freeLabels` — the labels that are left, in the order of their numbers.

## Main results

* `MediaGraph.LabelSupply.next_eq` — the answer of a supply and the supply after it.
* `MediaGraph.LabelSupply.Worded.next_of_cons` — with a plain word as its stem, a supply answers
  with the first label that is left.
-/

set_option autoImplicit false

namespace MediaGraph

/-! ## Texts of labels -/

namespace Label

/-- A text is that of a label exactly if nothing is wrong with it. -/
theorem ofText_eq_ok_iff {s : String} {l : Label} : ofText s = .ok l ↔ l.text = s := by
  unfold ofText
  split
  · next h =>
    rw [Except.ok.injEq]
    constructor
    · rintro rfl
      rfl
    · rintro rfl
      rfl
  · next d h =>
    refine ⟨fun hok => by simp at hok, ?_⟩
    rintro rfl
    rw [l.sound] at h
    simp at h

/-- Nothing is wrong with a text of allowed characters, if there is one. -/
lemma defect?_eq_none {s : String} (hne : s.toList ≠ []) (hall : ∀ c ∈ s.toList, allows c) :
    defect? s = none := by
  rw [defect?, if_neg hne, List.findSome?_eq_none_iff]
  intro c hc
  simp [charDefect?, hall c hc]

end Label

/-- Numbers with the same digits are the same. -/
lemma toString_injective {m n : Nat} (h : toString m = toString n) : m = n := by
  have hread : ∀ k : Nat, Nat.ofDigitChars 10 (toString k).toList 0 = k := by simp
  rw [← hread m, h, hread n]

/-- A plain word with a number behind it can be a label. -/
lemma Label.defect?_word_append {stem : String} (h : Settings.isWord stem.toList) (m : Nat) :
    Label.defect? (stem ++ toString m) = none := by
  have hdigits : ∀ c ∈ (toString m).toList, c.isDigit := by
    intro c hc
    rw [Nat.toString_eq_repr, Nat.toList_repr] at hc
    exact Nat.isDigit_of_mem_toDigits (by omega) (by omega) hc
  have hstem : stem.toList ≠ [] ∧ ∀ c ∈ stem.toList, Label.allows c := by
    cases hchars : stem.toList with
    | nil => simp [hchars, Settings.isWord] at h
    | cons c rest =>
      simp only [hchars, Settings.isWord, Settings.startsWord, Settings.continuesWord,
        Bool.and_eq_true, Bool.or_eq_true, List.all_eq_true, beq_iff_eq] at h
      obtain ⟨hfirst, hrest⟩ := h
      refine ⟨by simp, fun d hd => ?_⟩
      simp only [Label.allows, Bool.or_eq_true, beq_iff_eq]
      rcases List.mem_cons.mp hd with rfl | hd
      · rcases hfirst with hfirst | hfirst
        · simp [Char.isAlphanum, hfirst]
        · simp [hfirst]
      · rcases hrest d hd with hrest | hrest
        · simp [hrest]
        · simp [hrest]
  refine Label.defect?_eq_none (by simp [hstem.1]) fun c hc => ?_
  rw [String.toList_append, List.mem_append] at hc
  rcases hc with hc | hc
  · exact hstem.2 c hc
  · simp [Label.allows, Char.isAlphanum, hdigits c hc]

/-- Settings with a plain word as their stem have no problem; their first label is never refused. -/
lemma Settings.problem?_of_isWord {settings : Settings} (h : isWord settings.stem.toList) :
    settings.problem? = none := by
  have hne : settings.stem.toList ≠ [] := by
    intro hnil
    simp [hnil, isWord] at h
  rw [problem?, if_neg hne, if_pos h]
  dsimp only
  rw [Label.defect?_word_append h, Option.map_none]

namespace LabelSupply

/-! ## Free numbers -/

/-- The numbers that are left: those from the counter on, below the limit, whose label is not in
use. -/
def freeNumbers (s : LabelSupply) : List Nat :=
  (List.range' s.counter (limit - s.counter)).filter fun m => !s.reserved.contains (s.candidate m)

variable {s : LabelSupply}

/-- The numbers below the limit are those up to the last but one of 64 bits. -/
lemma lt_limit_iff {m : Nat} : m < limit ↔ m ≤ 2 ^ 64 - 2 := by
  rw [limit, Width.max64]
  omega

/-- The supply that goes on behind a number. -/
def behind (s : LabelSupply) (m : Nat) : LabelSupply := { s with counter := m + 1 }

@[simp] lemma candidate_behind (m k : Nat) : (s.behind m).candidate k = s.candidate k := rfl

lemma mem_freeNumbers {m : Nat} :
    m ∈ s.freeNumbers ↔ s.counter ≤ m ∧ m < limit ∧ s.candidate m ∉ s.reserved := by
  simp only [freeNumbers, List.mem_filter, List.mem_range'_1, Bool.not_eq_true',
    List.contains_eq_mem, decide_eq_false_iff_not]
  constructor
  · rintro ⟨⟨hle, hlt⟩, hfree⟩
    exact ⟨hle, by omega, hfree⟩
  · rintro ⟨hle, hlt, hfree⟩
    exact ⟨⟨hle, by omega⟩, hfree⟩

/-- The free numbers ascend. -/
lemma pairwise_freeNumbers (s : LabelSupply) : s.freeNumbers.Pairwise (· < ·) :=
  List.Pairwise.filter _ (List.pairwise_lt_range' _)

/-- A number whose label is in use is passed over. -/
lemma freeNumbers_of_mem (hroom : s.counter < limit) (h : s.candidate s.counter ∈ s.reserved) :
    s.freeNumbers = (s.behind s.counter).freeNumbers := by
  have hlength : limit - s.counter = (limit - (s.counter + 1)) + 1 := by omega
  rw [freeNumbers, hlength, List.range'_succ, List.filter_cons_of_neg (by simpa using h)]
  rfl

/-- A number whose label is not in use is the first free one. -/
lemma freeNumbers_of_not_mem (hroom : s.counter < limit)
    (h : s.candidate s.counter ∉ s.reserved) :
    s.freeNumbers = s.counter :: (s.behind s.counter).freeNumbers := by
  have hlength : limit - s.counter = (limit - (s.counter + 1)) + 1 := by omega
  rw [freeNumbers, hlength, List.range'_succ, List.filter_cons_of_pos (by simpa using h)]
  rfl

/-- Behind the first free number are the others. -/
lemma freeNumbers_behind {m : Nat} {rest : List Nat} (h : s.freeNumbers = m :: rest) :
    (s.behind m).freeNumbers = rest := by
  fun_induction next s with
  | case1 s hfull =>
    have hm : m ∈ s.freeNumbers := h ▸ List.mem_cons_self
    obtain ⟨hle, hlt, -⟩ := mem_freeNumbers.mp hm
    omega
  | case2 s hroom text after hused ih =>
    rw [freeNumbers_of_mem (by omega) (by simpa using hused)] at h
    exact ih h
  | case3 s hroom text after hfree label hlabel =>
    rw [freeNumbers_of_not_mem (by omega) (by simpa using hfree), List.cons.injEq] at h
    exact h.1 ▸ h.2
  | case4 s hroom text after hfree defect hdefect =>
    rw [freeNumbers_of_not_mem (by omega) (by simpa using hfree), List.cons.injEq] at h
    exact h.1 ▸ h.2

/-- **A supply uses up its first free number**, or overflows if none is left. The answer is the
label with that number, or the defect of its text. -/
theorem next_eq (s : LabelSupply) :
    s.next = match s.freeNumbers with
      | [] => (.error (.internal .labelOverflow), { s with counter := max s.counter limit })
      | m :: _ =>
        (match Label.ofText (s.candidate m) with
          | .ok label => .ok label
          | .error defect => .error (.ofDefect (s.candidate m) defect), s.behind m) := by
  fun_induction next s with
  | case1 s hfull =>
    have hnone : s.freeNumbers = [] := by
      refine List.eq_nil_iff_forall_not_mem.mpr fun m hm => ?_
      obtain ⟨hle, hlt, -⟩ := mem_freeNumbers.mp hm
      omega
    rw [hnone, Nat.max_eq_left hfull]
  | case2 s hroom text after hused ih =>
    rw [ih, freeNumbers_of_mem (s := s) (by omega) (by simpa using hused)]
    have hmax : max (s.counter + 1) limit = max s.counter limit := by omega
    simp only [after, hmax]
    rfl
  | case3 s hroom text after hfree label hlabel =>
    rw [freeNumbers_of_not_mem (by omega) (by simpa using hfree)]
    simp only
    rw [show Label.ofText (s.candidate s.counter) = .ok label from hlabel]
    rfl
  | case4 s hroom text after hfree defect hdefect =>
    rw [freeNumbers_of_not_mem (by omega) (by simpa using hfree)]
    simp only
    rw [show Label.ofText (s.candidate s.counter) = .error defect from hdefect]
    rfl

/-! ## Free labels -/

/-- The labels that are left, in the order of their numbers. -/
def freeLabels (s : LabelSupply) : List Label :=
  s.freeNumbers.filterMap fun m => (Label.ofText (s.candidate m)).toOption

/-- The stem is a plain word. -/
def Worded (s : LabelSupply) : Prop := Settings.isWord s.stem.toList

/-- With a plain word as the stem every number makes a label. -/
lemma Worded.exists_label (h : s.Worded) (m : Nat) :
    ∃ l, Label.ofText (s.candidate m) = .ok l :=
  ⟨⟨s.candidate m, Label.defect?_word_append h m⟩, Label.ofText_eq_ok_iff.mpr rfl⟩

/-- With a plain word as the stem every free number makes a free label. -/
lemma Worded.map_text_freeLabels (h : s.Worded) :
    s.freeLabels.map Label.text = s.freeNumbers.map s.candidate := by
  rw [freeLabels]
  induction s.freeNumbers with
  | nil => rfl
  | cons m rest ih =>
    obtain ⟨l, hl⟩ := h.exists_label m
    rw [List.filterMap_cons, hl, List.map_cons, ← ih]
    exact congrArg (· :: _) (Label.ofText_eq_ok_iff.mp hl)

/-- With a plain word as the stem there are as many free labels as free numbers. -/
lemma Worded.length_freeLabels (h : s.Worded) : s.freeLabels.length = s.freeNumbers.length := by
  simpa using congrArg List.length h.map_text_freeLabels

/-- No label is free twice. -/
lemma Worded.nodup_freeLabels (h : s.Worded) : s.freeLabels.Nodup := by
  refine List.Nodup.of_map Label.text ?_
  rw [h.map_text_freeLabels]
  refine List.Nodup.map (fun m n hsame => ?_) ((pairwise_freeNumbers s).imp Nat.ne_of_lt)
  exact toString_injective ((String.append_right_inj _).mp hsame)

/-- A free label is not in use. -/
lemma Worded.not_mem_reserved (h : s.Worded) {l : Label} (hl : l ∈ s.freeLabels) :
    l.text ∉ s.reserved := by
  have htext : l.text ∈ s.freeNumbers.map s.candidate :=
    h.map_text_freeLabels ▸ List.mem_map_of_mem hl
  obtain ⟨m, hm, hsame⟩ := List.mem_map.mp htext
  exact hsame ▸ (mem_freeNumbers.mp hm).2.2

/-- With a plain word as its stem, a supply answers with the first label that is left, and leaves
the others. -/
theorem Worded.next_of_cons (h : s.Worded) {l : Label} {rest : List Label}
    (hfree : s.freeLabels = l :: rest) :
    ∃ s', s.next = (.ok l, s') ∧ s'.Worded ∧ s'.freeLabels = rest := by
  cases hnumbers : s.freeNumbers with
  | nil => simp [freeLabels, hnumbers] at hfree
  | cons m numbers =>
    obtain ⟨l', hl'⟩ := h.exists_label m
    have hcons : s.freeLabels = l' :: (s.behind m).freeLabels := by
      simp [freeLabels, hnumbers, hl', freeNumbers_behind hnumbers, Except.toOption]
    obtain ⟨rfl, rfl⟩ := List.cons.inj (hcons.symm.trans hfree)
    refine ⟨s.behind m, ?_, h, rfl⟩
    rw [next_eq, hnumbers]
    simp only [hl']

/-- With a plain word as its stem, a supply overflows if no label is left. -/
theorem Worded.next_of_nil (h : s.Worded) (hfree : s.freeLabels = []) :
    s.next.1 = .error (.internal .labelOverflow) := by
  have hnumbers : s.freeNumbers = [] := by
    rw [← List.length_eq_zero_iff, ← h.length_freeLabels, hfree, List.length_nil]
  rw [next_eq, hnumbers]

/-! ## Supplies that hold labels back -/

/-- Holding labels back changes only what is in use. -/
lemma foldl_reserve (used : List Label) (s : LabelSupply) :
    used.foldl reserve s = { s with reserved := (used.map Label.text).reverse ++ s.reserved } := by
  induction used generalizing s with
  | nil => rfl
  | cons l used ih => simp [ih, reserve]

end LabelSupply

end MediaGraph
