import Mathlib.Data.Fintype.Order
import Mathlib.Data.List.Perm.Subperm
import Mathlib.Logic.Relation
import Mathlib.Order.Bounds.Basic
import MediaGraph.Proofs.Schedule

/-!
# The order of any plan

A plan may be anything: nodes that read the same node twice, themselves, larger ones, ones that are
not in the plan, or each other in a circle. Its order is refused if a node reads from outside, or
else if nodes wait for each other. In all other cases it is the least of all orders in which every
node comes after what it reads from.

## Main definitions

* `MediaGraph.Plan.Reads`, `MediaGraph.Plan.Closed`, `MediaGraph.Plan.Cyclic` — who reads from
  whom, and what can be wrong with that.
* `MediaGraph.Plan.Sorts` — a list has every node of a plan after those that it reads from.
* `MediaGraph.Plan.nextNodes`, `MediaGraph.Plan.Picks` — the nodes that can come next, and lists
  in which the smallest of them always does.

## Main results

* `MediaGraph.Schedule.run_picks` — along every run the smallest node that can come next is placed.
* `MediaGraph.Schedule.step_run_size` — a schedule ends within as many steps as there are nodes.
* `MediaGraph.Plan.Sorts.lex` — a list in which the smallest node always comes next is the least.
* `MediaGraph.Plan.order_outcome` — the order of any plan, or the fault that forbids one.
-/

set_option autoImplicit false

namespace MediaGraph

namespace Plan

/-! ## Orders -/

/-- Whether a node of the plan reads from another. -/
def Reads (plan : Plan) (id a : Nat) : Prop :=
  ∃ feeders, plan.find? id = some feeders ∧ a ∈ feeders

/-- Whether all that nodes of the plan read from is in the plan. -/
def Closed (plan : Plan) : Prop := ∀ id a, plan.Reads id a → plan.contains a

/-- Whether nodes of the plan wait for each other, or one for itself. -/
def Cyclic (plan : Plan) : Prop := ∃ id, Relation.TransGen plan.Reads id id

/-- Whether a list has every node of the plan once, and after all that it reads from. -/
structure Sorts (plan : Plan) (order : List Nat) : Prop where
  /-- No node occurs twice. -/
  nodup : order.Nodup
  /-- The nodes are those of the plan. -/
  mem_iff : ∀ {id}, id ∈ order ↔ plan.contains id
  /-- In front of a node is all that it reads from. -/
  after : ∀ {front id back}, order = front ++ id :: back → ∀ a, plan.Reads id a → a ∈ front

/-- The nodes that can come next behind some others: they are not among these, but all that they
read from is. -/
def nextNodes (plan : Plan) (front : List Nat) : Set Nat :=
  {id | plan.contains id ∧ id ∉ front ∧ ∀ a, plan.Reads id a → a ∈ front}

/-- Whether every node in a list is the smallest of those that can come next. -/
def Picks (plan : Plan) (order : List Nat) : Prop :=
  ∀ front id back, order = front ++ id :: back → IsLeast (plan.nextNodes front) id

/-- Whether the input `a` of the node `id` is the first one, by ascending node, that reads from
outside. -/
structure LeavesFirst (plan : Plan) (id a : Nat) : Prop where
  /-- The node is the smallest that reads from outside. -/
  node : IsLeast {m | ∃ b, plan.Reads m b ∧ ¬ plan.contains b} id
  /-- The input is the first of the node's that does. -/
  input : ∃ feeders, plan.find? id = some feeders ∧
    feeders.find? (fun b => !plan.contains b) = some a

variable {plan : Plan} {id a : Nat} {feeders : List Nat}

lemma reads_iff (h : plan.find? id = some feeders) : plan.Reads id a ↔ a ∈ feeders := by
  simp [Reads, h]

lemma contains_iff : plan.contains id ↔ ∃ feeders, plan.find? id = some feeders := by
  rw [SortedMap.contains, Option.isSome_iff_exists]

lemma mem_nextNodes_iff {front : List Nat} :
    id ∈ plan.nextNodes front ↔
      id ∉ front ∧ ∃ feeders, plan.find? id = some feeders ∧ ∀ a ∈ feeders, a ∈ front := by
  rw [nextNodes, Set.mem_ofPred_eq, contains_iff]
  constructor
  · rintro ⟨⟨feeders, hfind⟩, hnew, hread⟩
    exact ⟨hnew, feeders, hfind, fun a ha => hread a ((reads_iff hfind).mpr ha)⟩
  · rintro ⟨hnew, feeders, hfind, hread⟩
    exact ⟨⟨feeders, hfind⟩, hnew, fun a ha => hread a ((reads_iff hfind).mp ha)⟩

/-- A list that goes on with the smallest node that can come next. -/
lemma Picks.concat {order : List Nat} (h : plan.Picks order)
    (hid : IsLeast (plan.nextNodes order) id) : plan.Picks (order ++ [id]) := by
  intro front m back hsplit
  rcases List.eq_nil_or_concat back with rfl | ⟨back, last, rfl⟩
  · obtain ⟨rfl, hm⟩ := List.append_inj' hsplit rfl
    obtain rfl : id = m := by simpa using hm
    exact hid
  · have hsplit' : order ++ [id] = (front ++ m :: back) ++ [last] := by simpa using hsplit
    exact h front m back (List.append_inj' hsplit' rfl).1

end Plan

/-! ## Runs -/

namespace Schedule

variable {plan : Plan} {s s' : Schedule}

lemma step_eq_none_iff : s.step = none ↔ s.ready = [] := by
  cases hready : s.ready <;> simp [step, hready]

/-- A step places the first ready node. -/
lemma placed_of_step (h : s.step = some s') :
    ∃ id rest, s.ready = id :: rest ∧ s'.placed = id :: s.placed := by
  unfold step at h
  split at h
  · simp at h
  · next id rest hready =>
    obtain rfl := Option.some.inj h
    exact ⟨id, rest, hready, rfl⟩

namespace Follows

/-- The ready nodes are those that can come next. -/
lemma mem_ready_iff (h : Follows plan s) {id : Nat} :
    id ∈ s.ready ↔ id ∈ plan.nextNodes s.placed.reverse := by
  simp only [h.ready, Plan.mem_nextNodes_iff, List.mem_reverse]

/-- The first ready node is the smallest that can come next. -/
lemma isLeast_ready (h : Follows plan s) {id : Nat} {rest : List Nat}
    (hready : s.ready = id :: rest) : IsLeast (plan.nextNodes s.placed.reverse) id := by
  have hascending := h.ascending
  rw [hready, List.pairwise_cons] at hascending
  refine ⟨h.mem_ready_iff.mp (hready ▸ List.mem_cons_self), fun m hm => ?_⟩
  rw [← h.mem_ready_iff, hready, List.mem_cons] at hm
  rcases hm with rfl | hm
  · exact Nat.le_refl _
  · exact Nat.le_of_lt (hascending.1 m hm)

/-- A step goes on with the smallest node that can come next. -/
lemma picks_step (h : Follows plan s) (hpicks : plan.Picks s.placed.reverse)
    (hstep : s.step = some s') : plan.Picks s'.placed.reverse := by
  obtain ⟨id, rest, hready, hplaced⟩ := placed_of_step hstep
  rw [hplaced, List.reverse_cons]
  exact hpicks.concat (h.isLeast_ready hready)

lemma picks_run (h : Follows plan s) (hpicks : plan.Picks s.placed.reverse) (steps : Nat) :
    plan.Picks (s.run steps).placed.reverse := by
  induction steps generalizing s with
  | zero => exact hpicks
  | succ steps ih =>
    rw [Schedule.run]
    split
    · exact hpicks
    · next s' hstep => exact ih (h.step hstep) (h.picks_step hpicks hstep)

/-- What is placed is in the plan. -/
lemma subset_keys (h : Follows plan s) : s.placed ⊆ plan.keys := by
  intro id hid
  obtain ⟨feeders, hfind, -⟩ := h.placed hid
  exact plan.mem_keys_iff.mpr ⟨feeders, hfind⟩

/-- No more nodes are placed than there are. -/
lemma length_placed_le (h : Follows plan s) : s.placed.length ≤ plan.size := by
  rw [← plan.length_keys]
  exact (List.subperm_of_subset h.nodup h.subset_keys).length_le

/-- **No count falls below zero.** When the first ready node is placed, the count of a task is at
least the number of its inputs that read from this node, so it goes down by exactly that number. -/
lemma missing_serve (h : Follows plan s) {id : Nat} {rest : List Nat}
    (hready : s.ready = id :: rest) {t : Task} (ht : t ∈ s.tasks) :
    (t.serve id).missing + t.feeders.count id = t.missing := by
  have hid : id ∉ s.placed := (h.ready.mp (hready ▸ List.mem_cons_self)).1
  rw [h.tasks, List.mem_map] at ht
  obtain ⟨e, -, rfl⟩ := ht
  have hle : e.2.count id ≤ unserved s.placed e.2 :=
    List.countP_mono_left fun a _ ha => by simpa [beq_iff_eq.mp ha] using hid
  exact Nat.sub_add_cancel hle

/-- If everything is placed, the nodes are sorted. -/
lemma sorts (h : Follows plan s) (hpicks : plan.Picks s.placed.reverse)
    (hfull : s.placed.length = plan.size) : plan.Sorts s.placed.reverse where
  nodup := List.nodup_reverse.mpr h.nodup
  mem_iff := by
    intro id
    have hperm : s.placed.Perm plan.keys :=
      (List.subperm_of_subset h.nodup h.subset_keys).perm_of_length_le
        (by rw [plan.length_keys, hfull])
    rw [List.mem_reverse, hperm.mem_iff, plan.contains_iff_mem_keys]
  after hsplit := (hpicks _ _ _ hsplit).1.2.2

end Follows

/-- **Along every run the smallest node that can come next is placed.** -/
theorem run_picks (plan : Plan) (steps : Nat) :
    plan.Picks ((start plan).run steps).placed.reverse :=
  (start_follows plan).picks_run (fun front id back h => by simp [start] at h) steps

/-- A run makes all of its steps, or it stops where no step is left. -/
lemma length_placed_run (s : Schedule) (steps : Nat) :
    (s.run steps).placed.length = s.placed.length + steps ∨ (s.run steps).step = none := by
  induction steps generalizing s with
  | zero => exact .inl rfl
  | succ steps ih =>
    rw [run]
    split
    · next hstop => exact .inr hstop
    · next s' hstep =>
      obtain ⟨id, rest, -, hplaced⟩ := placed_of_step hstep
      refine (ih s').imp_left fun hlength => ?_
      rw [hlength, hplaced, List.length_cons]
      omega

/-- **A schedule ends within as many steps as there are nodes.** -/
theorem step_run_size (plan : Plan) : ((start plan).run plan.size).step = none := by
  have hfollows := run_follows plan plan.size
  rcases length_placed_run (start plan) plan.size with hfull | hstop
  · cases hstep : ((start plan).run plan.size).step with
    | none => rfl
    | some s' =>
      -- one more node would be one too many
      obtain ⟨id, rest, -, hplaced⟩ := placed_of_step hstep
      have hle := (hfollows.step hstep).length_placed_le
      rw [hplaced, List.length_cons, hfull] at hle
      omega
  · exact hstop

end Schedule

namespace Plan

variable {plan : Plan} {order order' : List Nat}

/-! ## Cycles -/

/-- A plan that can be sorted has no cycle: along what nodes read from, places get smaller. -/
lemma Sorts.not_cyclic (h : plan.Sorts order) : ¬ plan.Cyclic := by
  have hreads : ∀ id a, plan.Reads id a → order.idxOf a < order.idxOf id := by
    rintro id a ⟨feeders, hfind, ha⟩
    obtain ⟨front, back, hsplit⟩ :=
      List.append_of_mem (h.mem_iff.mpr (contains_iff.mpr ⟨feeders, hfind⟩))
    have hfront := h.after hsplit a ⟨feeders, hfind, ha⟩
    have hid : id ∉ front := by
      intro hid
      have hnodup := h.nodup
      rw [hsplit] at hnodup
      exact List.disjoint_of_nodup_append hnodup hid List.mem_cons_self
    rw [hsplit, List.idxOf_append_of_mem hfront, List.idxOf_append_of_notMem hid]
    exact (List.idxOf_lt_length_iff.mpr hfront).trans_le (Nat.le_add_right _ _)
  rintro ⟨id, hcycle⟩
  have hlt : ∀ m, Relation.TransGen plan.Reads id m → order.idxOf m < order.idxOf id := by
    intro m hm
    induction hm with
    | single hread => exact hreads _ _ hread
    | tail _ hread ih => exact (hreads _ _ hread).trans ih
  exact Nat.lt_irrefl _ (hlt id hcycle)

/-- Without a cycle, some node of any part of the plan reads from none in that part. -/
lemma exists_first (h : ¬ plan.Cyclic) {part : Set Nat} (hpart : ∀ m ∈ part, m ∈ plan.keys)
    (hsome : part.Nonempty) : ∃ m ∈ part, ∀ a ∈ part, ¬ plan.Reads m a := by
  let before (a m : {m // m ∈ plan.keys}) : Prop := Relation.TransGen plan.Reads m a
  have : IsTrans _ before := ⟨fun _ _ _ hab hbc => hbc.trans hab⟩
  have : Std.Irrefl before := ⟨fun m hm => h ⟨m, hm⟩⟩
  have : Finite {m // m ∈ plan.keys} := List.finite_toSet plan.keys
  have hwf : WellFounded before := Finite.wellFounded_of_trans_of_irrefl before
  obtain ⟨m, hm⟩ := hsome
  obtain ⟨first, hfirst, hmin⟩ := hwf.has_min {m | m.1 ∈ part} ⟨⟨m, hpart m hm⟩, hm⟩
  exact ⟨first, hfirst, fun a ha hread => hmin ⟨a, hpart a ha⟩ ha (.single hread)⟩

/-- Where no step is left, everything is placed, if the plan is closed and has no cycle. -/
lemma length_placed_of_stop {s : Schedule} (h : s.Follows plan) (hclosed : plan.Closed)
    (hacyclic : ¬ plan.Cyclic) (hstop : s.step = none) : s.placed.length = plan.size := by
  by_contra hne
  have hleft : {m | m ∈ plan.keys ∧ m ∉ s.placed}.Nonempty := by
    by_contra hnone
    have hall : plan.keys ⊆ s.placed := fun m hm => by
      by_contra hnew
      exact hnone ⟨m, hm, hnew⟩
    have hle := (List.subperm_of_subset plan.keys_nodup hall).length_le
    rw [plan.length_keys] at hle
    exact hne (Nat.le_antisymm h.length_placed_le hle)
  obtain ⟨m, ⟨hm, hnew⟩, hfirst⟩ := exists_first hacyclic (fun m hm => hm.1) hleft
  have hready : m ∈ s.ready := by
    rw [h.mem_ready_iff]
    refine ⟨plan.contains_iff_mem_keys.mpr hm, by simpa using hnew, fun a hread => ?_⟩
    rw [List.mem_reverse]
    by_contra hout
    exact hfirst a ⟨plan.contains_iff_mem_keys.mp (hclosed m a hread), hout⟩ hread
  rw [Schedule.step_eq_none_iff.mp hstop] at hready
  simp at hready

/-! ## The least order -/

/-- **A list in which the smallest node always comes next is the least of all that are sorted.**

**Proof sketch.** By induction on what is behind a common front. The next node of the other list
can come next, so it is not smaller than the one that was picked. -/
theorem Sorts.lex (h : plan.Sorts order) (hpicks : plan.Picks order) (h' : plan.Sorts order') :
    order' = order ∨ List.Lex (· < ·) order order' := by
  have hlength : order.length = order'.length :=
    ((List.perm_ext_iff_of_nodup h.nodup h'.nodup).mpr fun _ =>
      h.mem_iff.trans h'.mem_iff.symm).length_eq
  have hbehind : ∀ back front back', order = front ++ back → order' = front ++ back' →
      back' = back ∨ List.Lex (· < ·) back back' := by
    intro back
    induction back with
    | nil =>
      intro front back' hsplit hsplit'
      left
      rw [hsplit, hsplit'] at hlength
      simpa using hlength
    | cons m back ih =>
      intro front back' hsplit hsplit'
      cases back' with
      | nil =>
        rw [hsplit, hsplit'] at hlength
        simp at hlength
      | cons n back' =>
        have hn : n ∈ plan.nextNodes front := by
          refine ⟨h'.mem_iff.mp (by simp [hsplit']), fun hfront => ?_, h'.after hsplit'⟩
          have hnodup := h'.nodup
          rw [hsplit'] at hnodup
          exact List.disjoint_of_nodup_append hnodup hfront List.mem_cons_self
        rcases Nat.lt_or_eq_of_le ((hpicks front m back hsplit).2 hn) with hlt | rfl
        · exact .inr (.rel hlt)
        · refine (ih (front ++ [m]) back' (by simp [hsplit]) (by simp [hsplit'])).imp ?_ .cons
          rintro rfl
          rfl
  exact hbehind order [] order' rfl rfl

/-! ## Inputs from outside -/

/-- The input that is reported is the first from outside. -/
lemma leavesFirst_of_outside? {id a : Nat} (h : plan.outside? = some (id, a)) :
    plan.LeavesFirst id a := by
  obtain ⟨front, ⟨m, feeders⟩, back, hlist, hfound, hfront⟩ := List.findSome?_eq_some_iff.mp h
  obtain ⟨b, hb, hsame⟩ := Option.map_eq_some_iff.mp hfound
  obtain ⟨rfl, rfl⟩ := Prod.mk.inj hsame
  have hfind : plan.find? m = some feeders := plan.mem_toList_iff.mp (by simp [hlist])
  refine ⟨⟨⟨b, (reads_iff hfind).mpr (List.mem_of_find?_eq_some hb), ?_⟩, ?_⟩, feeders, hfind, hb⟩
  · simpa using List.find?_some hb
  · rintro n ⟨c, ⟨feeders', hfind', hc⟩, hout⟩
    have hn : (n, feeders') ∈ plan.toList := plan.mem_toList_iff.mpr hfind'
    have hsorted := plan.sorted
    rw [hlist, List.mem_append, List.mem_cons] at hn
    rw [hlist, List.pairwise_append, List.pairwise_cons] at hsorted
    rcases hn with hn | hn | hn
    · have hnone := hfront _ hn
      rw [Option.map_eq_none_iff, List.find?_eq_none] at hnone
      simpa [hout] using hnone c hc
    · exact Nat.le_of_eq (Prod.mk.inj hn).1.symm
    · exact Nat.le_of_lt (Nat.compare_eq_lt.mp (hsorted.2.1.1 _ hn))

/-- There is one first input from outside. -/
lemma LeavesFirst.unique {id a id' a' : Nat} (h : plan.LeavesFirst id a)
    (h' : plan.LeavesFirst id' a') : (id, a) = (id', a') := by
  obtain rfl := h.node.unique h'.node
  obtain ⟨feeders, hfind, ha⟩ := h.input
  obtain ⟨feeders', hfind', ha'⟩ := h'.input
  obtain rfl := Option.some.inj (hfind.symm.trans hfind')
  rw [Option.some.inj (ha.symm.trans ha')]

lemma LeavesFirst.not_closed {id a : Nat} (h : plan.LeavesFirst id a) : ¬ plan.Closed := by
  obtain ⟨⟨b, hread, hout⟩, -⟩ := h.node
  exact fun hclosed => hout (hclosed _ _ hread)

/-- No input is reported only if the plan is closed. -/
lemma closed_of_outside? (h : plan.outside? = none) : plan.Closed := by
  rintro id a ⟨feeders, hfind, ha⟩
  simp only [outside?, List.findSome?_eq_none_iff, Option.map_eq_none_iff,
    List.find?_eq_none] at h
  simpa using h (id, feeders) (plan.mem_toList_iff.mpr hfind) a ha

/-! ## The order of a plan -/

/-- A plan is not closed, or it is closed and has a cycle, or neither. The first is refused for its
first input from outside, the second for its cycle, and the third has an order. -/
theorem order_cases (plan : Plan) :
    (∃ id a, plan.LeavesFirst id a ∧ plan.order = .error (.outsideNode id a)) ∨
    (plan.Closed ∧ plan.Cyclic ∧ plan.order = .error .cycle) ∨
    (plan.Closed ∧ ¬ plan.Cyclic ∧
      ∃ order, plan.order = .ok order ∧ plan.Sorts order ∧ plan.Picks order) := by
  cases houtside : plan.outside? with
  | some x => exact .inl ⟨x.1, x.2, leavesFirst_of_outside? houtside, by rw [order, houtside]⟩
  | none =>
    have hclosed := closed_of_outside? houtside
    have hfollows := Schedule.run_follows plan plan.size
    have hpicks := Schedule.run_picks plan plan.size
    by_cases hfull : ((Schedule.start plan).run plan.size).placed.length = plan.size
    · have hsorts := hfollows.sorts hpicks hfull
      exact .inr (.inr ⟨hclosed, hsorts.not_cyclic, _, by simp [order, houtside, hfull], hsorts,
        hpicks⟩)
    · have hcyclic : plan.Cyclic := by
        by_contra hacyclic
        exact hfull
          (length_placed_of_stop hfollows hclosed hacyclic (Schedule.step_run_size plan))
      exact .inr (.inl ⟨hclosed, hcyclic, by simp [order, houtside, hfull]⟩)

/-- **The order of any plan.** If a node reads from outside, the plan is refused for the first input
that does; else, if nodes wait for each other, it is refused for that. In all other cases it has an
order: every node once, after all that it reads from, and at each place the smallest node that could
stand there. No other order that is sorted is smaller. On the way no count falls below zero, and the
schedule ends within as many steps as there are nodes.

**Proof sketch.** The counts are the inputs whose nodes are not placed, and the ready nodes are
those that can come next (`Schedule.Follows`). So every step picks the smallest of them
(`Schedule.run_picks`), and a list of picks is the least order (`Plan.Sorts.lex`). Where no step is
left although a node is not placed, every such node reads from another one, and then there is a
cycle (`Plan.exists_first`). -/
theorem order_outcome (plan : Plan) :
    (∀ id a, plan.order = .error (.outsideNode id a) ↔ plan.LeavesFirst id a) ∧
    ((∃ id a, plan.order = .error (.outsideNode id a)) ↔
      ∃ id a, plan.Reads id a ∧ ¬ plan.contains a) ∧
    (plan.order = .error .cycle ↔ plan.Closed ∧ plan.Cyclic) ∧
    ((∃ order, plan.order = .ok order) ↔ plan.Closed ∧ ¬ plan.Cyclic) ∧
    (∀ order, plan.order = .ok order → plan.Sorts order ∧ plan.Picks order ∧
      ∀ order', plan.Sorts order' → order' = order ∨ List.Lex (· < ·) order order') ∧
    (∀ steps id rest, ((Schedule.start plan).run steps).ready = id :: rest →
      ∀ t ∈ ((Schedule.start plan).run steps).tasks,
        (t.serve id).missing + t.feeders.count id = t.missing) ∧
    ((Schedule.start plan).run plan.size).step = none := by
  have hleaves : (∃ id a, plan.Reads id a ∧ ¬ plan.contains a) ↔ ¬ plan.Closed := by
    simp [Closed]
  have hcounts : ∀ steps id rest, ((Schedule.start plan).run steps).ready = id :: rest →
      ∀ t ∈ ((Schedule.start plan).run steps).tasks,
        (t.serve id).missing + t.feeders.count id = t.missing :=
    fun steps id rest hready t ht => (Schedule.run_follows plan steps).missing_serve hready ht
  have hends := Schedule.step_run_size plan
  rw [hleaves]
  rcases order_cases plan with ⟨id, a, hfirst, horder⟩ | ⟨hclosed, hcyclic, horder⟩ |
    ⟨hclosed, hacyclic, order, horder, hsorts, hpicks⟩
  · have hopen := hfirst.not_closed
    refine ⟨fun id' a' => ?_, ?_, ?_, ?_, ?_, hcounts, hends⟩
    · rw [horder, Except.error.injEq, Fault.outsideNode.injEq]
      constructor
      · rintro ⟨rfl, rfl⟩
        exact hfirst
      · intro h
        exact Prod.mk.inj (hfirst.unique h)
    · exact iff_of_true ⟨id, a, horder⟩ hopen
    all_goals simp [horder, hopen]
  · refine ⟨fun id a => ?_, ?_, ?_, ?_, ?_, hcounts, hends⟩
    · rw [horder]
      exact iff_of_false (by simp) fun h => h.not_closed hclosed
    all_goals simp [horder, hclosed, hcyclic]
  · refine ⟨fun id a => ?_, ?_, ?_, ?_, fun order' h => ?_, hcounts, hends⟩
    · rw [horder]
      exact iff_of_false (by simp) fun h => h.not_closed hclosed
    · simp [horder, hclosed]
    · simp [horder, hacyclic]
    · simp [horder, hclosed, hacyclic]
    · obtain rfl := Except.ok.inj (horder.symm.trans h)
      exact ⟨hsorts, hpicks, fun other hother => hsorts.lex hpicks hother⟩

/-- A plan in which small nodes read from the largest one, and one of them reads from it twice. -/
def crossedPlan : Plan := SortedMap.ofList [(0, []), (1, [5]), (3, [5, 1, 5]), (5, [0])]

/-- The largest node is placed as soon as nothing smaller can be, and no sorted list is smaller. -/
theorem order_crossed :
    crossedPlan.order = .ok [0, 5, 1, 3] ∧
    ∀ order, crossedPlan.Sorts order →
      order = [0, 5, 1, 3] ∨ List.Lex (· < ·) [0, 5, 1, 3] order := by
  have horder : crossedPlan.order = .ok [0, 5, 1, 3] := by decide +kernel
  obtain ⟨-, -, -, -, hleast, -⟩ := order_outcome crossedPlan
  exact ⟨horder, (hleast _ horder).2.2⟩

end Plan

end MediaGraph
