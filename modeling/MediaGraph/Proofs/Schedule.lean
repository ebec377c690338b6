import Mathlib.Data.List.Nodup
import Mathlib.Tactic.Lemma
import Mathlib.Tactic.Tauto
import MediaGraph.Proofs.SortedMap
import MediaGraph.Schedule

/-!
# Schedules of a plan

Along every run of a schedule the counts of the tasks are the inputs whose nodes are not placed, and
the ready nodes are, in ascending order, those that are not placed while all they read from is. A
plan whose nodes read only from smaller ones is therefore placed in ascending order.

## Main definitions

* `MediaGraph.Schedule.Follows` — the invariant of schedules of a plan.
* `MediaGraph.Plan.Numbered` — every node reads only from smaller nodes of the plan.

## Main results

* `MediaGraph.Schedule.Follows.step`, `MediaGraph.Schedule.run_follows` — one step and every run
  keep the invariant.
* `MediaGraph.Plan.Numbered.order_eq` — a numbered plan is placed in ascending order.
-/

set_option autoImplicit false

namespace MediaGraph

namespace Schedule

/-! ## Ascending lists -/

lemma mem_insertAscending {n m : Nat} {l : List Nat} : m ∈ insertAscending n l ↔ m = n ∨ m ∈ l := by
  induction l with
  | nil => simp [insertAscending]
  | cons k rest ih =>
    rw [insertAscending]
    split
    · simp
    · simp only [List.mem_cons, ih]
      tauto

lemma mem_foldr_insertAscending {freed rest : List Nat} {m : Nat} :
    m ∈ freed.foldr insertAscending rest ↔ m ∈ freed ∨ m ∈ rest := by
  induction freed with
  | nil => simp
  | cons n freed ih => simp [mem_insertAscending, ih, or_assoc]

/-- A new number put at its place leaves a list strictly ascending. -/
lemma pairwise_insertAscending {n : Nat} {l : List Nat} (hs : l.Pairwise (· < ·)) (hn : n ∉ l) :
    (insertAscending n l).Pairwise (· < ·) := by
  induction l with
  | nil => simp [insertAscending]
  | cons k rest ih =>
    obtain ⟨head, tail⟩ := List.pairwise_cons.mp hs
    rw [List.mem_cons, not_or] at hn
    obtain ⟨hne, hrest⟩ := hn
    rw [insertAscending]
    split
    · next hle =>
      refine List.pairwise_cons.mpr ⟨fun m hm => ?_, hs⟩
      rcases List.mem_cons.mp hm with rfl | hm
      · omega
      · have := head m hm
        omega
    · next hgt =>
      refine List.pairwise_cons.mpr ⟨fun m hm => ?_, ih tail hrest⟩
      rcases mem_insertAscending.mp hm with rfl | hm
      · omega
      · exact head m hm

lemma pairwise_foldr_insertAscending {freed rest : List Nat} (hs : rest.Pairwise (· < ·))
    (hnodup : freed.Nodup) (hnew : ∀ n ∈ freed, n ∉ rest) :
    (freed.foldr insertAscending rest).Pairwise (· < ·) := by
  induction freed with
  | nil => exact hs
  | cons n freed ih =>
    obtain ⟨hn, hnodup⟩ := List.nodup_cons.mp hnodup
    refine pairwise_insertAscending (ih hnodup fun m hm => hnew m (List.mem_cons_of_mem _ hm)) ?_
    rw [mem_foldr_insertAscending, not_or]
    exact ⟨hn, hnew n List.mem_cons_self⟩

/-! ## The invariant -/

/-- The inputs whose nodes are not placed. -/
def unserved (placed feeders : List Nat) : Nat := feeders.countP fun a => !placed.contains a

/-- No input is left if all that is read from is placed. -/
lemma unserved_eq_zero_iff {placed feeders : List Nat} :
    unserved placed feeders = 0 ↔ ∀ a ∈ feeders, a ∈ placed := by
  simp [unserved, List.countP_eq_zero]

/-- Placing a node serves the inputs that read from it, and no others. -/
lemma unserved_cons {id : Nat} {placed : List Nat} (hid : id ∉ placed) (feeders : List Nat) :
    unserved (id :: placed) feeders = unserved placed feeders - feeders.count id := by
  have hsum : unserved placed feeders = unserved (id :: placed) feeders + feeders.count id := by
    induction feeders with
    | nil => simp [unserved]
    | cons a rest ih =>
      rw [unserved, unserved, List.countP_cons, List.countP_cons, List.count_cons,
        ← unserved, ← unserved, ih]
      by_cases ha : a = id
      · subst ha
        simp [hid]
        omega
      · by_cases hp : a ∈ placed <;> simp [ha, hp]
        omega
  omega

/-- The invariant of schedules of a plan. -/
structure Follows (plan : Plan) (s : Schedule) : Prop where
  /-- The tasks are the nodes of the plan, with the inputs whose nodes are not placed. -/
  tasks : s.tasks = plan.toList.map fun e => ⟨e.1, e.2, unserved s.placed e.2⟩
  /-- Ready is what is not placed while all it reads from is. -/
  ready : ∀ {id}, id ∈ s.ready ↔
    id ∉ s.placed ∧ ∃ feeders, plan.find? id = some feeders ∧ ∀ a ∈ feeders, a ∈ s.placed
  /-- The ready nodes ascend. -/
  ascending : s.ready.Pairwise (· < ·)
  /-- No node is placed twice. -/
  nodup : s.placed.Nodup
  /-- What is placed is in the plan, and all it reads from is placed. -/
  placed : ∀ {id}, id ∈ s.placed →
    ∃ feeders, plan.find? id = some feeders ∧ ∀ a ∈ feeders, a ∈ s.placed

end Schedule

/-- The nodes of a plan ascend. -/
lemma Plan.pairwise_keys (plan : Plan) : plan.keys.Pairwise (· < ·) :=
  plan.keys_sorted.imp fun h => Nat.compare_eq_lt.mp h

namespace Schedule

/-- The nodes of tasks picked from a plan ascend. -/
private lemma pairwise_ids {plan : Plan} {p : Task → Bool} {missing : List Nat → Nat} :
    (((plan.toList.map fun e => (⟨e.1, e.2, missing e.2⟩ : Task)).filter p).map Task.id).Pairwise
      (· < ·) := by
  have hids : (plan.toList.map fun e => (⟨e.1, e.2, missing e.2⟩ : Task)).map Task.id =
      plan.keys := by
    simp [SortedMap.keys]
  refine List.Pairwise.sublist (List.filter_sublist.map _) ?_
  rw [hids]
  exact plan.pairwise_keys

/-- The invariant holds before anything is placed. -/
theorem start_follows (plan : Plan) : Follows plan (start plan) where
  tasks := by
    simp only [start, List.map_inj_left]
    intro e _
    simp [unserved]
  ready := by
    intro id
    simp only [start, List.mem_map, List.mem_filter, beq_iff_eq, List.not_mem_nil,
      not_false_eq_true, true_and]
    constructor
    · rintro ⟨_, ⟨⟨⟨a, feeders⟩, he, rfl⟩, hnone⟩, rfl⟩
      obtain rfl : feeders = [] := by simpa using hnone
      exact ⟨[], plan.mem_toList_iff.mp he, by simp⟩
    · rintro ⟨feeders, hfind, hnone⟩
      obtain rfl : feeders = [] := List.eq_nil_iff_forall_not_mem.mpr fun a ha => hnone a ha
      exact ⟨⟨id, [], 0⟩, ⟨⟨(id, []), plan.mem_toList_iff.mpr hfind, rfl⟩, rfl⟩, rfl⟩
  ascending := pairwise_ids
  nodup := List.nodup_nil
  placed h := by simp [start] at h

namespace Follows

variable {plan : Plan} {s s' : Schedule}

/-- A node that placing `id` made ready reads from `id`, and all it reads from is placed now. -/
private lemma mem_freed (h : Follows plan s) {id : Nat} (hid : id ∉ s.placed) {m : Nat} :
    m ∈ (s.tasks.filter (Task.becomesReady id)).map Task.id ↔
      ∃ feeders, plan.find? m = some feeders ∧ id ∈ feeders ∧
        ∀ a ∈ feeders, a ∈ id :: s.placed := by
  simp only [h.tasks, List.mem_map, List.mem_filter, Task.becomesReady, Task.serve,
    Bool.and_eq_true, beq_iff_eq, List.contains_iff_mem, ← unserved_eq_zero_iff,
    unserved_cons hid]
  constructor
  · rintro ⟨_, ⟨⟨⟨a, feeders⟩, he, rfl⟩, hmem, hzero⟩, rfl⟩
    exact ⟨feeders, plan.mem_toList_iff.mp he, hmem, hzero⟩
  · rintro ⟨feeders, hfind, hmem, hzero⟩
    exact ⟨_, ⟨⟨(m, feeders), plan.mem_toList_iff.mpr hfind, rfl⟩, hmem, hzero⟩, rfl⟩

/-- A node that reads from one that is not placed is neither placed nor ready. -/
private lemma waits (h : Follows plan s) {id m : Nat} {feeders : List Nat} (hid : id ∉ s.placed)
    (hfind : plan.find? m = some feeders) (hreads : id ∈ feeders) :
    m ∉ s.placed ∧ m ∉ s.ready := by
  have hserved : ¬ ∃ fs, plan.find? m = some fs ∧ ∀ a ∈ fs, a ∈ s.placed := by
    rintro ⟨fs, hfs, hall⟩
    obtain rfl : fs = feeders := Option.some.inj (hfs.symm.trans hfind)
    exact hid (hall id hreads)
  exact ⟨fun hm => hserved (h.placed hm), fun hm => hserved (h.ready.mp hm).2⟩

/-- Behind the first ready node are the others. -/
private lemma mem_tail_ready (h : Follows plan s) {id : Nat} {rest : List Nat}
    (hready : s.ready = id :: rest) {m : Nat} : m ∈ rest ↔ m ∈ s.ready ∧ m ≠ id := by
  have hascending := h.ascending
  rw [hready, List.pairwise_cons] at hascending
  rw [hready, List.mem_cons]
  constructor
  · intro hm
    exact ⟨.inr hm, Nat.ne_of_gt (hascending.1 m hm)⟩
  · rintro ⟨rfl | hm, hne⟩
    · exact absurd rfl hne
    · exact hm

/-- After the first ready node is placed the ready nodes are those that were freed and the others,
and these are those that are not placed while all they read from is.

**Proof sketch.** A node that is ready afterwards and was not before reads from the placed one, so
it was freed. -/
private lemma mem_ready_step (h : Follows plan s) {id : Nat} {rest : List Nat}
    (hready : s.ready = id :: rest) {m : Nat} :
    m ∈ ((s.tasks.filter (Task.becomesReady id)).map Task.id).foldr insertAscending rest ↔
      m ∉ id :: s.placed ∧
        ∃ feeders, plan.find? m = some feeders ∧ ∀ a ∈ feeders, a ∈ id :: s.placed := by
  have hfirst : id ∈ s.ready := hready ▸ List.mem_cons_self
  have hid := (h.ready.mp hfirst).1
  rw [mem_foldr_insertAscending, h.mem_freed hid, h.mem_tail_ready hready, List.mem_cons, not_or]
  constructor
  · rintro (⟨fs, hfs, hreads, hall⟩ | ⟨hm, hne⟩)
    · obtain ⟨hplaced, hwaits⟩ := h.waits hid hfs hreads
      refine ⟨⟨?_, hplaced⟩, fs, hfs, hall⟩
      rintro rfl
      exact hwaits hfirst
    · obtain ⟨hplaced, fs, hfs, hall⟩ := h.ready.mp hm
      exact ⟨⟨hne, hplaced⟩, fs, hfs, fun a ha => List.mem_cons_of_mem _ (hall a ha)⟩
  · rintro ⟨⟨hne, hplaced⟩, fs, hfs, hall⟩
    by_cases hreads : id ∈ fs
    · exact .inl ⟨fs, hfs, hreads, hall⟩
    · refine .inr ⟨h.ready.mpr ⟨hplaced, fs, hfs, fun a ha => ?_⟩, hne⟩
      refine (List.mem_cons.mp (hall a ha)).resolve_left ?_
      rintro rfl
      exact hreads ha

/-- Placing the first ready node keeps the invariant. -/
theorem step (h : Follows plan s) (hstep : s.step = some s') : Follows plan s' := by
  unfold Schedule.step at hstep
  split at hstep
  · simp at hstep
  · next id rest hready =>
    obtain rfl := (Option.some.inj hstep).symm
    obtain ⟨hid, feeders, hfind, hserved⟩ := h.ready.mp (hready ▸ List.mem_cons_self)
    refine ⟨?_, h.mem_ready_step hready, ?_, List.nodup_cons.mpr ⟨hid, h.nodup⟩, ?_⟩
    case refine_1 =>
      simp only [h.tasks, List.map_map]
      refine List.map_congr_left fun e _ => ?_
      simp [Task.serve, unserved_cons hid]
    case refine_2 =>
      have hascending := h.ascending
      rw [hready, List.pairwise_cons] at hascending
      refine pairwise_foldr_insertAscending hascending.2 ?_ fun m hm hm' => ?_
      · rw [h.tasks]
        exact pairwise_ids.imp Nat.ne_of_lt
      · -- a freed node is not ready yet: it reads from one that is not placed
        obtain ⟨fs, hfs, hreads, -⟩ := (h.mem_freed hid).mp hm
        exact (h.waits hid hfs hreads).2 (hready ▸ List.mem_cons_of_mem _ hm')
    case refine_3 =>
      intro m hm
      rcases List.mem_cons.mp hm with rfl | hm
      · exact ⟨feeders, hfind, fun a ha => List.mem_cons_of_mem _ (hserved a ha)⟩
      · obtain ⟨fs, hfs, hall⟩ := h.placed hm
        exact ⟨fs, hfs, fun a ha => List.mem_cons_of_mem _ (hall a ha)⟩

/-- Every run keeps the invariant. -/
theorem run (h : Follows plan s) (steps : Nat) : Follows plan (s.run steps) := by
  induction steps generalizing s with
  | zero => exact h
  | succ steps ih =>
    rw [Schedule.run]
    split
    · exact h
    · next s' hstep => exact ih (h.step hstep)

end Follows

/-- Along every schedule of a plan the invariant holds. -/
theorem run_follows (plan : Plan) (steps : Nat) : Follows plan ((start plan).run steps) :=
  (start_follows plan).run steps

end Schedule

/-! ## Numbered plans -/

namespace Plan

/-- Every node of the plan reads only from smaller nodes of the plan. -/
def Numbered (plan : Plan) : Prop :=
  ∀ id feeders, plan.find? id = some feeders → ∀ a ∈ feeders, a < id ∧ plan.contains a

variable {plan : Plan} {s : Schedule}

/-- No node of a numbered plan reads from outside. -/
lemma Numbered.outside?_eq_none (h : plan.Numbered) : plan.outside? = none := by
  simp only [outside?, List.findSome?_eq_none_iff, Option.map_eq_none_iff, List.find?_eq_none]
  rintro ⟨id, feeders⟩ he a ha
  simpa using (h id feeders (plan.mem_toList_iff.mp he) a ha).2

section Prefix

variable {j : Nat}

/-- If the smallest nodes of a plan are placed, a node is placed exactly if its place is among
theirs. -/
lemma mem_placed_iff (hplaced : s.placed = (plan.keys.take j).reverse) {i : Nat}
    (hi : i < plan.keys.length) : plan.keys[i] ∈ s.placed ↔ i < j := by
  rw [hplaced, List.mem_reverse, List.mem_take_iff_getElem]
  constructor
  · rintro ⟨k, hk, hkey⟩
    have := (plan.keys_nodup.getElem_inj_iff).mp hkey
    omega
  · intro hij
    exact ⟨i, by omega, rfl⟩

/-- A node that is not placed is not smaller than the next one. -/
lemma le_of_not_mem_placed (hplaced : s.placed = (plan.keys.take j).reverse)
    (hj : j < plan.keys.length) {m : Nat} (hm : m ∈ plan.keys) (hnew : m ∉ s.placed) :
    plan.keys[j] ≤ m := by
  obtain ⟨i, hi, rfl⟩ := List.getElem_of_mem hm
  rw [mem_placed_iff hplaced hi] at hnew
  rcases Nat.lt_or_eq_of_le (Nat.le_of_not_lt hnew) with hlt | rfl
  · exact Nat.le_of_lt (List.pairwise_iff_getElem.mp plan.pairwise_keys j i hj hi hlt)
  · exact Nat.le_refl _

/-- The next node of a numbered plan can be placed: what it reads from is smaller. -/
lemma Numbered.next_mem_ready (h : plan.Numbered) (hs : s.Follows plan)
    (hplaced : s.placed = (plan.keys.take j).reverse) (hj : j < plan.keys.length) :
    plan.keys[j] ∈ s.ready := by
  have hnew : plan.keys[j] ∉ s.placed := fun hp =>
    absurd ((mem_placed_iff hplaced hj).mp hp) (Nat.lt_irrefl j)
  obtain ⟨feeders, hfind⟩ := plan.mem_keys_iff.mp (List.getElem_mem hj)
  refine hs.ready.mpr ⟨hnew, feeders, hfind, fun a ha => ?_⟩
  obtain ⟨hlt, hin⟩ := h _ _ hfind a ha
  by_contra hout
  have := le_of_not_mem_placed hplaced hj (plan.contains_iff_mem_keys.mp hin) hout
  omega

/-- If the smallest nodes of a numbered plan are placed, the next one is the first that is ready.

**Proof sketch.** The next node is ready. A ready node is in the plan and not placed, so it is not
smaller than the next one. -/
lemma Numbered.ready_eq_cons (h : plan.Numbered) (hs : s.Follows plan)
    (hplaced : s.placed = (plan.keys.take j).reverse) (hj : j < plan.keys.length) :
    ∃ rest, s.ready = plan.keys[j] :: rest := by
  have hnext := h.next_mem_ready hs hplaced hj
  have hleast : ∀ m ∈ s.ready, plan.keys[j] ≤ m := by
    intro m hm
    obtain ⟨hnew, feeders, hfind, -⟩ := hs.ready.mp hm
    exact le_of_not_mem_placed hplaced hj (plan.mem_keys_iff.mpr ⟨feeders, hfind⟩) hnew
  cases hready : s.ready with
  | nil => simp [hready] at hnext
  | cons id rest =>
    have hfirst := hs.ascending
    rw [hready, List.pairwise_cons] at hfirst
    rw [hready] at hnext hleast
    have hle := hleast id List.mem_cons_self
    rcases List.mem_cons.mp hnext with hid | hid
    · exact ⟨rest, by rw [hid]⟩
    · have := hfirst.1 _ hid
      omega

end Prefix

/-- Every run of a numbered plan places its smallest nodes, in ascending order. -/
lemma Numbered.placed_run (h : plan.Numbered) (hs : s.Follows plan) {j : Nat}
    (hplaced : s.placed = (plan.keys.take j).reverse) (steps : Nat) :
    (s.run steps).placed = (plan.keys.take (j + steps)).reverse := by
  induction steps generalizing s j with
  | zero => exact hplaced
  | succ steps ih =>
    by_cases hj : j < plan.keys.length
    · obtain ⟨rest, hready⟩ := h.ready_eq_cons hs hplaced hj
      obtain ⟨s', hstep, hplaced'⟩ :
          ∃ s', s.step = some s' ∧ s'.placed = (plan.keys.take (j + 1)).reverse := by
        refine ⟨_, by rw [Schedule.step, hready], ?_⟩
        simp only [hplaced, List.take_succ_eq_append_getElem hj, List.reverse_append,
          List.reverse_singleton, List.singleton_append]
      rw [Schedule.run, hstep]
      simp only
      rw [ih (hs.step hstep) hplaced', Nat.add_assoc, Nat.add_comm 1]
    · have hall : ∀ n, j ≤ n → plan.keys.take n = plan.keys := fun n hn =>
        List.take_of_length_le (by omega)
      have hnone : s.step = none := by
        cases hready : s.ready with
        | nil => rw [Schedule.step, hready]
        | cons id rest =>
          -- a ready node is in the plan, and all of the plan is placed
          obtain ⟨hnew, feeders, hfind, -⟩ := hs.ready.mp (hready ▸ List.mem_cons_self)
          refine absurd ?_ hnew
          rw [hplaced, hall j (Nat.le_refl j), List.mem_reverse]
          exact plan.mem_keys_iff.mpr ⟨_, hfind⟩
      rw [Schedule.run, hnone]
      simp only
      rw [hplaced, hall j (Nat.le_refl j), hall _ (Nat.le_add_right _ _)]

/-- A numbered plan is placed in ascending order. -/
theorem Numbered.order_eq (h : plan.Numbered) : plan.order = .ok plan.keys := by
  have hplaced : ((Schedule.start plan).run plan.size).placed = plan.keys.reverse := by
    rw [h.placed_run (Schedule.start_follows plan) (j := 0) rfl, Nat.zero_add,
      List.take_of_length_le (Nat.le_of_eq plan.length_keys)]
  simp [order, h.outside?_eq_none, hplaced, plan.length_keys]

end Plan

end MediaGraph
