import MediaGraph.Proofs.Expression.Assignment

/-!
# What a compilation reports

A compilation reports that it begins, then every label that it assigns, and at its end the size of
what it wrote. The labels are assigned pad by pad in the order of the text, so those that were
reported before an overflow are the first ones; a compilation that is refused for another reason
has assigned none.

## Main definitions

* `MediaGraph.Pad.Before` — the order in which pads are written.
* `MediaGraph.Graph.Queues` — all pads that need a label and all numbers that are free, in order.
* `MediaGraph.Graph.Tells` — what is reported of a compilation with some outcome.

## Main results

* `MediaGraph.Labelling.filter_fill` — the pads without a label get those of the pool one by one.
* `MediaGraph.Graph.compile_tells` — what every compilation reports.
-/

set_option autoImplicit false

namespace MediaGraph

/-- Whether a pad is written before another one: its node has a smaller number, or the node is the
same and the pad has a smaller index. -/
def Pad.Before (p q : Pad) : Prop := p.node < q.node ∨ p.node = q.node ∧ p.index < q.index

namespace Graph

/-- Whether `pads` are all pads that need a label in a compilation, in the order in which they are
written, and `numbers` all numbers that are free for them, by size. -/
structure Queues (g : Graph) (terminals : List Endpoint) (settings : Settings) (pads : List Pad)
    (numbers : List Nat) : Prop where
  /-- The pads are in order. -/
  pads_ascending : pads.Pairwise Pad.Before
  /-- They are those that need a label. -/
  mem_pads_iff : ∀ p, p ∈ pads ↔ p ∈ g.openPads terminals
  /-- The numbers are in order. -/
  numbers_ascending : numbers.Pairwise (· < ·)
  /-- They are those that are free. -/
  mem_numbers_iff : ∀ m, m ∈ numbers ↔ m ∈ g.freeNumbers terminals settings

/-- What is reported of a compilation with some outcome: `labels` is assigned to pads, and `summary`
stands at the end. -/
structure Tells (g : Graph) (terminals : List Stream) (settings : Settings)
    (outcome : Except Error Expression) (labels : List (Pad × Label)) (summary : List Event) :
    Prop where
  /-- The first of the pads that need a label get the first of the free numbers, one by one. -/
  assigned : ∃ pads numbers, g.Queues (terminals.map Stream.endpoint) settings pads numbers ∧
    labels.map (fun x => (x.1, x.2.text)) <+:
      (pads.zip numbers).map fun x => (x.1, settings.stem ++ toString x.2)
  /-- If the compilation is done, no pad is left over, every label is that which is written for its
  pad, and the size of the expression is reported. -/
  done : ∀ e, outcome = .ok e →
    (∀ p ∈ g.openPads (terminals.map Stream.endpoint), p ∈ labels.map Prod.fst) ∧
    (∃ chains : List Expression.Chain,
      Expression.LaidOut settings.escape chains e.text ∧
      e.nodeCount = chains.length ∧
      Expression.Labelled g (terminals.map Stream.endpoint) settings chains ∧
      (Expression.outputPads chains).filter (fun x => (g.labelOf? (.pad x.1)).isNone) = labels) ∧
    summary = [.compiled e.nodeCount e.text.utf8ByteSize]
  /-- If it is refused, no size is reported, and labels only before an overflow. -/
  refused : ∀ err, outcome = .error err →
    summary = [] ∧ (labels ≠ [] → err = .internal .labelOverflow)
  /-- Before an overflow all free numbers are used up. -/
  exhausted : outcome = .error (.internal .labelOverflow) →
    ∀ m ∈ g.freeNumbers (terminals.map Stream.endpoint) settings,
      ∃ x ∈ labels, x.2.text = settings.stem ++ toString m

/-! ## Pads and numbers in order -/

variable {g : Graph} {nodes : List Node} {terminals : List Endpoint} {settings : Settings}
  {labelling : Labelling}

/-- A node is written pad by pad. -/
lemma writtenPads_ascending (g : Graph) (node : Nat) :
    (g.writtenPads node).Pairwise Pad.Before := by
  rw [writtenPads]
  split
  · exact .nil
  · exact List.pairwise_map.mpr (List.pairwise_lt_range.imp fun h => .inr ⟨rfl, h⟩)

/-- Nodes are written one after the other. -/
lemma flatMap_writtenPads_ascending {ids : List Nat} (h : ids.Pairwise (· < ·)) :
    (ids.flatMap g.writtenPads).Pairwise Pad.Before := by
  refine List.pairwise_flatMap.mpr ⟨fun id _ => g.writtenPads_ascending id, ?_⟩
  refine h.imp fun {a b} hlt p hp q hq => .inl ?_
  rw [(mem_writtenPads.mp hp).1, (mem_writtenPads.mp hq).1]
  exact hlt

/-- The pads and the numbers of every compilation can be listed. -/
lemma exists_queues (hg : g.WellFormed) (terminals : List Endpoint) (settings : Settings) :
    ∃ pads numbers, g.Queues terminals settings pads numbers := by
  classical
  refine ⟨((List.range g.nodes.size).flatMap g.writtenPads).filter (· ∈ g.openPads terminals),
    (List.range LabelSupply.limit).filter (· ∈ g.freeNumbers terminals settings), ?_⟩
  constructor
  case pads_ascending => exact (flatMap_writtenPads_ascending List.pairwise_lt_range).filter _
  case numbers_ascending => exact List.pairwise_lt_range.filter _
  case mem_pads_iff =>
    intro p
    simp only [List.mem_filter, List.mem_flatMap, List.mem_range, mem_writtenPads,
      decide_eq_true_eq, and_iff_right_iff_imp]
    rintro ⟨-, ⟨q, label, hq, hle⟩, -⟩
    exact ⟨p.node, (hg.pad_place hq).1, rfl, q, label, hq, hle⟩
  case mem_numbers_iff =>
    intro m
    simp only [List.mem_filter, List.mem_range, decide_eq_true_eq, and_iff_right_iff_imp]
    exact fun hm => LabelSupply.lt_limit_iff.mpr hm.2.1

/-- The pads that need a label among all pads of nodes, and the numbers that the supply has left. -/
lemma queues_of_ordered (hg : g.WellFormed) (hterminals : ∀ e ∈ terminals, g.Knows e)
    (ho : g.Ordered (seeds terminals) nodes) :
    g.Queues terminals settings (Labelling.unnamed g (Labelling.padsOf g nodes))
      (Labelling.supply g nodes terminals settings).freeNumbers where
  pads_ascending :=
    (flatMap_writtenPads_ascending (List.pairwise_map.mpr ho.ascending)).filter _
  mem_pads_iff p := (mem_openPads_iff hg hterminals ho).symm
  numbers_ascending := LabelSupply.pairwise_freeNumbers _
  mem_numbers_iff m := by
    simp only [freeNumbers, Set.mem_ofPred_eq, Labelling.mem_freeNumbers_supply,
      LabelSupply.lt_limit_iff, mem_usedLabels_iff hg hterminals ho]

end Graph

namespace Labelling

variable {g : Graph} {nodes : List Node} {terminals : List Endpoint} {settings : Settings}

/-- The pads of a filling that were not asked for under a label have those of the pool, one by
one. -/
lemma filter_fill (pads : List Pad) (pool : List Label) :
    (fill g pads pool).filter (fun x => (g.labelOf? (.pad x.1)).isNone) =
      (unnamed g pads).zip pool := by
  fun_induction fill g pads pool with
  | case1 => rfl
  | case2 p rest pool l hnamed ih => simp [hnamed, ih, unnamed_of_named hnamed]
  | case3 p rest hunnamed => simp
  | case4 p rest hunnamed l pool ih => simp [hunnamed, ih, unnamed_of_unnamed hunnamed]

/-- The labels of the pool are those of the free numbers. -/
lemma map_text_zip_pool (hword : Settings.isWord settings.stem.toList) (pads : List Pad) :
    (pads.zip (pool g nodes terminals settings)).map (fun x => (x.1, x.2.text)) =
      (pads.zip (supply g nodes terminals settings).freeNumbers).map
        fun x => (x.1, settings.stem ++ toString x.2) := by
  have htexts : (pool g nodes terminals settings).map Label.text =
      (supply g nodes terminals settings).freeNumbers.map fun m => settings.stem ++ toString m := by
    rw [pool, (worded_supply hword).map_text_freeLabels]
    exact List.map_congr_left fun m _ => candidate_supply m
  have hsecond : ∀ {β : Type} (f : β → String) (bs : List β),
      (pads.zip bs).map (fun x => (x.1, f x.2)) = pads.zip (bs.map f) := fun f bs => by
    rw [List.zip_map_right]
    rfl
  exact (hsecond _ _).trans ((congrArg pads.zip htexts).trans (hsecond _ _).symm)

end Labelling

/-- The end of some work as the outcome and what was reported. -/
def Report.ended {α : Type} (outcome : Except Error α) (events : Array Event) :
    EStateM.Result Error (Array Event) α :=
  match outcome with
  | .ok a => .ok a events
  | .error e => .error e events

namespace Graph

variable {g : Graph} {nodes : List Node} {terminals : List Stream} {settings : Settings}
  {labelling : Labelling}

/-- A label that is assigned, as it is reported. -/
def labelEvent (x : Pad × Label) : Event := .labelled x.1.node x.1.index x.2

/-! ## Refusals before any label -/

/-- A compilation that is refused for its settings or its terminals has assigned no label. -/
lemma tells_of_early (hg : g.WellFormed) {err : Error} (h : err ≠ .internal .labelOverflow) :
    g.Tells terminals settings (.error err) [] [] where
  assigned := by
    obtain ⟨pads, numbers, hqueues⟩ := exists_queues hg (terminals.map Stream.endpoint) settings
    exact ⟨pads, numbers, hqueues, List.nil_prefix⟩
  done := by simp
  refused := by simp
  exhausted := fun hoverflow => absurd (Except.error.inj hoverflow) h

/-- A refusal of the settings is no overflow of labels. -/
lemma validate_ne_overflow {err : Error} (h : settings.validate = .error err) :
    err ≠ .internal .labelOverflow := by
  rintro rfl
  unfold Settings.validate at h
  split at h <;> simp at h

/-- Nor is one of the terminals. -/
lemma checkTerminals_ne_overflow {err : Error} (h : g.checkTerminals terminals = .error err) :
    err ≠ .internal .labelOverflow := by
  rintro rfl
  unfold checkTerminals at h
  split at h
  · simp at h
  · split at h <;> simp at h

/-- Nor is one of the search for nodes, which only fails if there is nothing to search from. -/
lemma sortedAncestors_ne_overflow (hg : g.WellFormed) {terminals : List Endpoint}
    (hterminals : ∀ e ∈ terminals, g.Knows e) {err : Error}
    (h : g.sortedAncestors (seeds terminals) = .error err) : err ≠ .internal .labelOverflow := by
  rintro rfl
  by_cases hnil : seeds terminals = []
  · simp [hnil, sortedAncestors_of_nil] at h
  · obtain ⟨nodes, hok, -⟩ := sortedAncestors_eq_ok hg (seeds_lt hg hterminals) hnil
    simp [hok] at h

/-! ## Writing with labels -/

section Writing

variable {terminals : List Stream} (hg : g.WellFormed)
  (hterminals : ∀ e ∈ terminals.map Stream.endpoint, g.Knows e)
  (ho : g.Ordered (seeds (terminals.map Stream.endpoint)) nodes)
  (hword : Settings.isWord settings.stem.toList)

include hg hterminals ho hword

/-- The pads that need a label and the labels of the pool, one by one, are the assignment. -/
lemma assigned_zip : ∃ pads numbers,
    g.Queues (terminals.map Stream.endpoint) settings pads numbers ∧
    ((Labelling.unnamed g (Labelling.padsOf g nodes)).zip
        (Labelling.pool g nodes (terminals.map Stream.endpoint) settings)).map
        (fun x => (x.1, x.2.text)) <+:
      (pads.zip numbers).map fun x => (x.1, settings.stem ++ toString x.2) := by
  refine ⟨_, _, queues_of_ordered hg hterminals ho, ?_⟩
  rw [Labelling.map_text_zip_pool hword]

/-- What is told of a compilation that has enough labels. -/
lemma tells_of_suits
    (hsuits : labelling.Suits g nodes (terminals.map Stream.endpoint) settings) :
    let e := g.expression labelling nodes (terminals.map Stream.endpoint) settings
    g.Tells terminals settings (.ok e)
      ((Labelling.unnamed g (Labelling.padsOf g nodes)).zip
        (Labelling.pool g nodes (terminals.map Stream.endpoint) settings))
      [.compiled e.nodeCount e.text.utf8ByteSize] := by
  intro e
  constructor
  case assigned => exact assigned_zip hg hterminals ho hword
  case done =>
    rintro _ ⟨⟩
    refine ⟨fun p hp => ?_, ⟨nodes.map (g.chain labelling), expression_laidOut .., ?_, ?_, ?_⟩, rfl⟩
    · rw [List.map_fst_zip hsuits.enough]
      exact (mem_openPads_iff hg hterminals ho).mp hp
    · exact (List.length_map ..).symm
    · exact labelled_expression hg hterminals ho hsuits
    · rw [hsuits.outputPads_eq ho, Labelling.filter_fill]
  case refused => simp
  case exhausted => simp

/-- What is told of a compilation that has too few labels. -/
lemma tells_of_few
    (hfew : (Labelling.pool g nodes (terminals.map Stream.endpoint) settings).length <
      (Labelling.unnamed g (Labelling.padsOf g nodes)).length) :
    g.Tells terminals settings (.error (.internal .labelOverflow))
      ((Labelling.unnamed g (Labelling.padsOf g nodes)).zip
        (Labelling.pool g nodes (terminals.map Stream.endpoint) settings)) [] where
  assigned := assigned_zip hg hterminals ho hword
  done := by simp
  refused := by
    rintro _ ⟨⟩
    exact ⟨rfl, fun _ => rfl⟩
  exhausted := by
    intro _ m hm
    have hfree := ((queues_of_ordered hg hterminals ho).mem_numbers_iff m).mpr hm
    have htext : settings.stem ++ toString m ∈
        (Labelling.pool g nodes (terminals.map Stream.endpoint) settings).map Label.text := by
      rw [Labelling.pool, (Labelling.worded_supply hword).map_text_freeLabels, List.mem_map]
      exact ⟨m, hfree, Labelling.candidate_supply m⟩
    rw [← List.map_snd_zip hfew.le, List.map_map, List.mem_map] at htext
    exact htext

end Writing

/-- **What every compilation reports**: that it begins, the labels that it assigned, and the size of
the expression if there is one.

**Proof sketch.** The checks are made before any label is assigned, so a refusal by one of them
leaves only the first report (`tells_of_early`). Behind them the nodes are written, and the pads
that need a label get those of the pool one by one, all of them or as many as there are
(`tells_of_suits`, `tells_of_few`). -/
theorem compile_tells (hg : g.WellFormed)
    (hterminals : ∀ t ∈ terminals, t.graph = g.id → g.Knows t.endpoint) (settings : Settings) :
    ∃ outcome labels summary,
      (g.compile terminals settings).run #[] = Report.ended outcome
        (.compiling terminals.length :: labels.map labelEvent ++ summary).toArray ∧
      g.Tells terminals settings outcome labels summary := by
  have hknown : g.checkTerminals terminals = .ok () →
      ∀ e ∈ terminals.map Stream.endpoint, g.Knows e := by
    intro hterms
    rw [List.forall_mem_map]
    exact fun t ht => hterminals t ht ((checkTerminals_eq_ok_iff.mp hterms).2 t ht)
  rw [compile_run]
  split
  · next nodes hsettings hterms hnodes =>
    have hknown := hknown hterms
    have hword := Settings.validate_eq_ok_iff.mp hsettings
    -- all checks are passed: what is left is whether there are enough labels
    obtain ⟨-, ho⟩ := ordered_of_sortedAncestors hg (seeds_lt hg hknown) hnodes
    rcases Nat.lt_or_ge (Labelling.pool g nodes (terminals.map Stream.endpoint) settings).length
      (Labelling.unnamed g (Labelling.padsOf g nodes)).length with hfew | henough
    · refine ⟨_, _, _, ?_, tells_of_few hg hknown ho hword hfew⟩
      rw [write_overflow hg hknown ho hword hfew, Labelling.reports]
      simp [Report.ended, labelEvent]
    · obtain ⟨labelling, hsuits, hrun⟩ := write_done hg hknown ho hword henough
        (#[].push (.compiling terminals.length))
      refine ⟨_, _, _, ?_, tells_of_suits hg hknown ho hword hsuits⟩
      rw [hrun, Labelling.reports]
      simp [Report.ended, labelEvent]
  · next hsettings =>
    exact ⟨.error _, [], [], rfl, tells_of_early hg (validate_ne_overflow hsettings)⟩
  · next hterms =>
    exact ⟨.error _, [], [], rfl, tells_of_early hg (checkTerminals_ne_overflow hterms)⟩
  · next hterms hnodes =>
    exact ⟨.error _, [], [], rfl,
      tells_of_early hg (sortedAncestors_ne_overflow hg (hknown hterms) hnodes)⟩

end Graph

end MediaGraph
