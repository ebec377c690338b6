import Mathlib.Order.Bounds.Basic
import MediaGraph.Proofs.LabelSupply

/-!
# Calls to a supply in any order

Labels can be held back at any time, also between two calls that ask for one. Which number a call
uses up is said here without the supply: it is the least one that is not behind those used up before
and whose label was not held back until then. The supply answers accordingly, whatever its stem is
and wherever it starts to count.

## Main definitions

* `MediaGraph.LabelSupply.Ask` — what a supply can be asked to do.
* `MediaGraph.LabelSupply.answers`, `MediaGraph.LabelSupply.after` — the answers to calls in a row,
  and the supply after them.
* `MediaGraph.LabelSupply.Serves` — the numbers that calls in a row use up.
* `MediaGraph.LabelSupply.Account` — all that can be said of the answers.

## Main results

* `MediaGraph.LabelSupply.exists_account` — the answers of a new supply.
-/

set_option autoImplicit false

namespace MediaGraph.LabelSupply

/-! ## Calls in a row -/

/-- What a supply can be asked to do. -/
inductive Ask where
  /-- To hold a label back. -/
  | reserve (label : Label)
  /-- To hand out a label. -/
  | next

/-- The answers to those of the calls that ask for a label. -/
def answers (s : LabelSupply) : List Ask → List (Except Error Label)
  | [] => []
  | .reserve l :: rest => (s.reserve l).answers rest
  | .next :: rest => s.next.1 :: s.next.2.answers rest

/-- The supply after calls. -/
def after (s : LabelSupply) : List Ask → LabelSupply
  | [] => s
  | .reserve l :: rest => (s.reserve l).after rest
  | .next :: rest => s.next.2.after rest

/-! ## What calls use up -/

/-- The numbers from `counter` on, up to the last but one of 64 bits, whose label was not held
back. -/
def free (stem : String) (counter : Nat) (used : List Label) : Set Nat :=
  {m | counter ≤ m ∧ m ≤ 2 ^ 64 - 2 ∧ ∀ l ∈ used, l.text ≠ stem ++ toString m}

/-- Which numbers the calls for a label use up, if the numbers before `counter` are used up and some
labels are held back already. A call uses up the least free number. If there is none it uses up
nothing. -/
inductive Serves (stem : String) : Nat → List Label → List Ask → List (Option Nat) → Prop where
  /-- There is no call. -/
  | done {counter : Nat} {used : List Label} : Serves stem counter used [] []
  /-- A label is held back for the calls behind. -/
  | reserve {counter : Nat} {used : List Label} {l : Label} {rest : List Ask}
      {numbers : List (Option Nat)} (others : Serves stem counter (l :: used) rest numbers) :
    Serves stem counter used (.reserve l :: rest) numbers
  /-- The least free number is used up, and the calls behind go on after it. -/
  | number {counter m : Nat} {used : List Label} {rest : List Ask} {numbers : List (Option Nat)}
      (least : IsLeast (free stem counter used) m)
      (others : Serves stem (m + 1) used rest numbers) :
    Serves stem counter used (.next :: rest) (some m :: numbers)
  /-- No number is free. -/
  | overflow {counter : Nat} {used : List Label} {rest : List Ask} {numbers : List (Option Nat)}
      (empty : free stem counter used = ∅) (others : Serves stem counter used rest numbers) :
    Serves stem counter used (.next :: rest) (none :: numbers)

/-- The label with a number, or what is wrong with its text. -/
def reading (stem : String) (m : Nat) : Except Error Label :=
  match Label.ofText (stem ++ toString m) with
  | .ok l => .ok l
  | .error defect => .error (.ofDefect (stem ++ toString m) defect)

/-- All that can be said of the answers to calls: which numbers were used up, one after the other,
and how many calls at the end were refused because there was none left. -/
structure Account (stem : String) (first : Nat) (asks : List Ask) (taken : List Nat)
    (refused : Nat) : Prop where
  /-- Each call used up the least free number, until there was none. -/
  serves : Serves stem first [] asks (taken.map some ++ List.replicate refused none)
  /-- The answers are the labels with these numbers, and refusals from some point on. -/
  answers : (start stem first).answers asks =
    taken.map (reading stem) ++ List.replicate refused (.error (.internal .labelOverflow))
  /-- The numbers ascend. -/
  ascending : taken.Pairwise (· < ·)
  /-- No label was handed out twice. -/
  distinct : (((start stem first).answers asks).filterMap Except.toOption).Nodup
  /-- A label that was handed out was not held back before. -/
  unreserved : ∀ before rest, asks = before ++ .next :: rest →
    ∀ l, ((start stem first).after before).next.1 = .ok l → .reserve l ∉ before
  /-- A number that was passed over is that of a label held back. -/
  passed : ∀ n ∈ taken, ∀ m, first ≤ m → m < n →
    m ∈ taken ∨ ∃ l, .reserve l ∈ asks ∧ l.text = stem ++ toString m
  /-- If a call was refused, all numbers but the last of 64 bits were used up or held back. -/
  exhausted : refused ≠ 0 → ∀ m, first ≤ m → m ≤ 2 ^ 64 - 2 →
    m ∈ taken ∨ ∃ l, .reserve l ∈ asks ∧ l.text = stem ++ toString m

variable {stem : String} {counter m : Nat} {used : List Label} {asks : List Ask}
  {numbers : List (Option Nat)}

/-- A number that is within reach and not free is that of a label held back. -/
lemma exists_label_of_not_free (hle : counter ≤ m) (hlt : m ≤ 2 ^ 64 - 2)
    (h : m ∉ free stem counter used) : ∃ l ∈ used, l.text = stem ++ toString m := by
  by_contra hnone
  push Not at hnone
  exact h ⟨hle, hlt, hnone⟩

namespace Serves

/-- Only numbers from the counter on are used up, and never the last one of 64 bits. -/
lemma bounds (h : Serves stem counter used asks numbers) :
    ∀ n, some n ∈ numbers → counter ≤ n ∧ n ≤ 2 ^ 64 - 2 := by
  induction h with
  | done => simp
  | reserve _ ih => exact ih
  | number least _ ih =>
    obtain ⟨hle, hlt, -⟩ := least.1
    intro n hn
    rcases List.mem_cons.mp hn with hn | hn
    · exact Option.some.inj hn ▸ ⟨hle, hlt⟩
    · exact ⟨hle.trans (Nat.le_of_succ_le (ih n hn).1), (ih n hn).2⟩
  | overflow _ _ ih => exact fun n hn => ih n (by simpa using hn)

/-- The numbers ascend. -/
lemma ascending (h : Serves stem counter used asks numbers) :
    numbers.Pairwise fun a b => ∀ m n, a = some m → b = some n → m < n := by
  induction h with
  | done => exact .nil
  | reserve _ ih => exact ih
  | number _ others ih =>
    refine .cons ?_ ih
    rintro b hb m n ⟨⟩ rfl
    exact (others.bounds n hb).1
  | overflow _ _ ih => exact .cons (by simp) ih

/-- What a call could have used up instead, namely a number before the one that it used up or any
number if it used up none, was used up by another call or is that of a label held back. -/
lemma covered (h : Serves stem counter used asks numbers) {answer : Option Nat}
    (hanswer : answer ∈ numbers) (hle : counter ≤ m) (hlt : m ≤ 2 ^ 64 - 2)
    (hbefore : ∀ n, answer = some n → m < n) :
    some m ∈ numbers ∨ ∃ l, (l ∈ used ∨ .reserve l ∈ asks) ∧ l.text = stem ++ toString m := by
  induction h with
  | done => simp at hanswer
  | reserve _ ih =>
    rcases ih hanswer hle with hm | ⟨l, hl, htext⟩
    · exact .inl hm
    · refine .inr ⟨l, ?_, htext⟩
      rcases hl with hl | hl
      · rcases List.mem_cons.mp hl with rfl | hl
        · exact .inr List.mem_cons_self
        · exact .inl hl
      · exact .inr (List.mem_cons_of_mem _ hl)
  | @number counter k _ _ _ least _ ih =>
    rcases Nat.lt_trichotomy m k with hmk | rfl | hmk
    · -- the call at the head could have used it up, so it was not free
      obtain ⟨l, hl, htext⟩ :=
        exists_label_of_not_free hle hlt fun hfree => (least.2 hfree).not_gt hmk
      exact .inr ⟨l, .inl hl, htext⟩
    · exact .inl List.mem_cons_self
    · have hrest : answer ∈ _ := (List.mem_cons.mp hanswer).resolve_left fun hk =>
        (hbefore k hk).not_gt hmk
      rcases ih hrest hmk with hm | ⟨l, hl, htext⟩
      · exact .inl (List.mem_cons_of_mem _ hm)
      · exact .inr ⟨l, hl.imp_right (List.mem_cons_of_mem _), htext⟩
  | overflow empty =>
    obtain ⟨l, hl, htext⟩ := exists_label_of_not_free hle hlt (empty ▸ Set.notMem_empty m)
    exact .inr ⟨l, .inl hl, htext⟩

end Serves

/-! ## What the supply does -/

variable {s : LabelSupply} {l : Label}

/-- What is left of a supply are the free numbers. -/
lemma mem_freeNumbers_iff_free (h : s.reserved = used.map Label.text) :
    m ∈ s.freeNumbers ↔ m ∈ free s.stem s.counter used := by
  simp [mem_freeNumbers, h, lt_limit_iff, free, candidate]

lemma reading_eq_ok_iff : reading stem m = .ok l ↔ l.text = stem ++ toString m := by
  rw [← Label.ofText_eq_ok_iff, reading]
  cases Label.ofText (stem ++ toString m) <;> simp

/-- If no number is left there is no answer. -/
lemma next_of_nil (h : s.freeNumbers = []) :
    s.next = (.error (.internal .labelOverflow), { s with counter := max s.counter limit }) := by
  rw [next_eq, h]

/-- The answer is the label with the first number that is left. -/
lemma next_of_cons {rest : List Nat} (h : s.freeNumbers = m :: rest) :
    s.next = (reading s.stem m, s.behind m) := by
  rw [next_eq, h]
  rfl

/-- The first number that is left is the least free one. -/
lemma isLeast_free {rest : List Nat} (h : s.freeNumbers = m :: rest)
    (hused : s.reserved = used.map Label.text) : IsLeast (free s.stem s.counter used) m := by
  refine ⟨(mem_freeNumbers_iff_free hused).mp (h ▸ List.mem_cons_self), fun n hn => ?_⟩
  rw [← mem_freeNumbers_iff_free hused, h, List.mem_cons] at hn
  rcases hn with rfl | hn
  · exact le_rfl
  · exact (List.rel_of_pairwise_cons (h ▸ pairwise_freeNumbers s) hn).le

/-- If no number is left, none is left after another call. -/
lemma freeNumbers_eq_nil_of_le {t : LabelSupply} (hcounter : s.counter ≤ t.counter)
    (hstem : t.stem = s.stem) (hreserved : s.reserved ⊆ t.reserved) (h : s.freeNumbers = []) :
    t.freeNumbers = [] := by
  refine List.eq_nil_iff_forall_not_mem.mpr fun m hm => ?_
  obtain ⟨hle, hlt, hfree⟩ := mem_freeNumbers.mp hm
  have hm' : m ∈ s.freeNumbers := by
    refine mem_freeNumbers.mpr ⟨hcounter.trans hle, hlt, fun hin => hfree ?_⟩
    rw [candidate, hstem]
    exact hreserved hin
  simp [h] at hm'

/-- If no number is left and none is free, all calls are refused. -/
lemma exists_refused (asks : List Ask) (h : s.freeNumbers = [])
    (empty : free stem counter used = ∅) :
    ∃ refused, Serves stem counter used asks (List.replicate refused none) ∧
      s.answers asks = List.replicate refused (.error (.internal .labelOverflow)) := by
  induction asks generalizing s used with
  | nil => exact ⟨0, .done, rfl⟩
  | cons ask rest ih =>
    cases ask with
    | reserve l =>
      have hfree : free stem counter (l :: used) = ∅ := by
        refine Set.eq_empty_of_subset_empty fun m hm => empty ▸ ?_
        exact ⟨hm.1, hm.2.1, fun l' hl' => hm.2.2 l' (List.mem_cons_of_mem _ hl')⟩
      have hnumbers : (s.reserve l).freeNumbers = [] :=
        freeNumbers_eq_nil_of_le (s := s) le_rfl rfl (List.subset_cons_self _ _) h
      obtain ⟨refused, hserves, hanswers⟩ := ih hnumbers hfree
      exact ⟨refused, .reserve hserves, hanswers⟩
    | next =>
      have hnumbers : { s with counter := max s.counter limit }.freeNumbers = [] :=
        freeNumbers_eq_nil_of_le (s := s) (le_max_left _ _) rfl (List.Subset.refl _) h
      obtain ⟨refused, hserves, hanswers⟩ := ih hnumbers empty
      refine ⟨refused + 1, .overflow empty hserves, ?_⟩
      rw [answers, next_of_nil h, hanswers, List.replicate_succ]

/-- The calls use up what they should, and the answers are the labels with the numbers used up, and
refusals behind them. -/
lemma exists_serves (asks : List Ask) (hused : s.reserved = used.map Label.text) :
    ∃ (taken : List Nat) (refused : Nat),
      Serves s.stem s.counter used asks (taken.map some ++ List.replicate refused none) ∧
      s.answers asks = taken.map (reading s.stem) ++
        List.replicate refused (.error (.internal .labelOverflow)) := by
  induction asks generalizing s used with
  | nil => exact ⟨[], 0, .done, rfl⟩
  | cons ask rest ih =>
    cases ask with
    | reserve l =>
      have hheld : (s.reserve l).reserved = (l :: used).map Label.text := by simp [reserve, hused]
      obtain ⟨taken, refused, hserves, hanswers⟩ := ih hheld
      exact ⟨taken, refused, .reserve hserves, hanswers⟩
    | next =>
      cases hnumbers : s.freeNumbers with
      | nil =>
        have empty : free s.stem s.counter used = ∅ := by
          refine Set.eq_empty_of_forall_notMem fun m hm => ?_
          simpa [hnumbers] using (mem_freeNumbers_iff_free hused).mpr hm
        obtain ⟨refused, h⟩ := exists_refused (.next :: rest) hnumbers empty
        exact ⟨[], refused, h⟩
      | cons m others =>
        obtain ⟨taken, refused, hserves, hanswers⟩ := ih (s := s.behind m) hused
        refine ⟨m :: taken, refused, .number (isLeast_free hnumbers hused) hserves, ?_⟩
        rw [answers, next_of_cons hnumbers, hanswers]
        rfl

/-! ## Labels held back -/

/-- A call for a label holds nothing back. -/
lemma reserved_next (s : LabelSupply) : s.next.2.reserved = s.reserved := by
  cases hnumbers : s.freeNumbers with
  | nil => rw [next_of_nil hnumbers]
  | cons m rest => rw [next_of_cons hnumbers]; rfl

/-- A label that is handed out is not held back. -/
lemma text_not_mem_reserved (h : s.next.1 = .ok l) : l.text ∉ s.reserved := by
  cases hnumbers : s.freeNumbers with
  | nil => simp [next_of_nil hnumbers] at h
  | cons m rest =>
    rw [next_of_cons hnumbers, reading_eq_ok_iff] at h
    rw [h]
    exact (mem_freeNumbers.mp (hnumbers ▸ List.mem_cons_self)).2.2

/-- What is held back stays so. -/
lemma reserved_subset_after (asks : List Ask) : s.reserved ⊆ (s.after asks).reserved := by
  induction asks generalizing s with
  | nil => exact List.Subset.refl _
  | cons ask rest ih =>
    cases ask with
    | reserve l => exact fun _ h => ih (List.mem_cons_of_mem _ h)
    | next => exact reserved_next s ▸ ih

/-- A label that some call held back is held back afterwards. -/
lemma mem_reserved_after (h : .reserve l ∈ asks) : l.text ∈ (s.after asks).reserved := by
  induction asks generalizing s with
  | nil => simp at h
  | cons ask rest ih =>
    rcases List.mem_cons.mp h with rfl | hrest
    · exact reserved_subset_after (s := s.reserve l) rest List.mem_cons_self
    · cases ask with
      | reserve => exact ih hrest
      | next => exact ih hrest

/-! ## The answers -/

/-- The labels among the answers are those of the numbers used up. -/
lemma filterMap_answers (stem : String) (taken : List Nat) (refused : Nat) (e : Error) :
    (taken.map (reading stem) ++ List.replicate refused (.error e : Except Error Label)).filterMap
        Except.toOption =
      taken.filterMap fun m => (reading stem m).toOption := by
  rw [List.filterMap_append, List.filterMap_map, List.filterMap_replicate_of_none rfl,
    List.append_nil]
  rfl

lemma text_of_toOption_reading (h : (reading stem m).toOption = some l) :
    l.text = stem ++ toString m := by
  refine reading_eq_ok_iff.mp ?_
  cases hreading : reading stem m with
  | error e => simp [hreading, Except.toOption] at h
  | ok l' => simpa [hreading, Except.toOption] using h

/-- Numbers that ascend make different labels. -/
lemma nodup_filterMap_reading {taken : List Nat} (h : taken.Pairwise (· < ·)) :
    (taken.filterMap fun m => (reading stem m).toOption).Nodup := by
  refine List.Nodup.filterMap (fun m n l hm hn => ?_) (h.imp Nat.ne_of_lt)
  have hsame := (text_of_toOption_reading hm).symm.trans (text_of_toOption_reading hn)
  exact toString_injective ((String.append_right_inj _).mp hsame)

/-- **Whatever a new supply is asked for, it uses up the least numbers that are free, and refuses
only if there are none.**

**Proof sketch.** By induction on the calls, with any supply (`exists_serves`). Its free numbers
ascend, so the one that it uses up is the least, and the calls behind it are answered by the supply
that goes on behind that number. If there are no free numbers, none will come to be free, and all
calls behind are refused. What was used up ascends, so no two of the labels are the same. -/
theorem exists_account (stem : String) (first : Nat) (asks : List Ask) :
    ∃ taken refused, Account stem first asks taken refused := by
  have hheld : (start stem first).reserved = [].map Label.text := rfl
  obtain ⟨taken, refused, serves, hanswers⟩ := exists_serves asks hheld
  change Serves stem first [] asks _ at serves
  have ascending : taken.Pairwise (· < ·) := by
    have hboth := (List.pairwise_append.mp serves.ascending).1
    rw [List.pairwise_map] at hboth
    exact hboth.imp fun h => h _ _ rfl rfl
  have covered : ∀ answer ∈ taken.map some ++ List.replicate refused none, ∀ m, first ≤ m →
      m ≤ 2 ^ 64 - 2 → (∀ n, answer = some n → m < n) →
      m ∈ taken ∨ ∃ l, .reserve l ∈ asks ∧ l.text = stem ++ toString m := by
    intro answer hanswer m hle hlt hbefore
    simpa using serves.covered hanswer hle hlt hbefore
  exact ⟨taken, refused,
    { serves := serves
      answers := hanswers
      ascending := ascending
      distinct := by
        rw [hanswers, filterMap_answers]
        exact nodup_filterMap_reading ascending
      unreserved := by
        rintro before rest rfl l hl hheld
        exact text_not_mem_reserved hl (mem_reserved_after hheld)
      passed := by
        intro n hn m hle hlt
        have hused : some n ∈ taken.map some ++ List.replicate refused none := by simpa using hn
        have hmax := (serves.bounds n hused).2
        exact covered (some n) hused m hle (by omega) fun k hk => Option.some.inj hk ▸ hlt
      exhausted := by
        intro hrefused m hle hlt
        exact covered none (by simpa using hrefused) m hle hlt (by simp) }⟩

end MediaGraph.LabelSupply
