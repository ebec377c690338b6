import Mathlib.Order.Bounds.Basic
import MediaGraph.Proofs.Expression.Outcome

/-!
# Which labels an expression has

A node of an expression has a label for each of its pads up to the highest that was asked for. A
pad that was asked for under a label has that one. The others, read from the front of the
expression to its end, are numbered: they have the free numbers from the first one on, without a
gap.

## Main definitions

* `MediaGraph.Expression.outputPads` — the pads of an expression with their labels, as written.
* `MediaGraph.Expression.assigned` — the labels of those that were not asked for under one.
* `MediaGraph.Expression.Successive` — some numbers are the first of those that are free.
* `MediaGraph.Expression.Labelled` — which labels stand where.

## Main results

* `MediaGraph.Labelling.Suits.outputPads_eq` — what is written are the pads with their filling.
* `MediaGraph.Client.labelled_of_compile` — the labels of every expression that a client can
  compile.
-/

set_option autoImplicit false

namespace MediaGraph

namespace Expression

/-- The output pads of an expression with their labels, in the order of the text. -/
def outputPads (chains : List Chain) : List (Pad × Label) :=
  chains.flatMap fun c => c.outputs.zipIdx.map fun x => (⟨c.node.id, x.2⟩, x.1)

/-- The labels of the output pads that were not asked for under one, in the order of the text. -/
def assigned (g : Graph) (chains : List Chain) : List Label :=
  ((outputPads chains).filter fun x => (g.labelOf? (.pad x.1)).isNone).map Prod.snd

/-- Whether a label is reserved in an expression: it is that of an endpoint outside that a node of
the expression reads or that is a terminal, or a pad of such a node was asked for under it. -/
def Reserves (g : Graph) (terminals : List Endpoint) (chains : List Chain) (l : Label) : Prop :=
  (∃ c ∈ chains, .external l ∈ c.node.inputs) ∨ .external l ∈ terminals ∨
    ∃ c ∈ chains, ∃ i, g.pads.find? ⟨c.node.id, i⟩ = some (some l)

/-- Whether `numbers` are the first of the free numbers from `first` on, one after the other: none
is passed over and none is used twice. -/
structure Successive (first : Nat) (isFree : Nat → Prop) (numbers : List Nat) : Prop where
  /-- The numbers ascend. -/
  ascending : numbers.Pairwise (· < ·)
  /-- They are free. -/
  free : ∀ m ∈ numbers, first ≤ m ∧ isFree m
  /-- A free number below one of them is one of them. -/
  gapless : ∀ m ∈ numbers, ∀ k, first ≤ k → k < m → isFree k → k ∈ numbers

/-- The labels in an expression of some nodes. -/
structure Labelled (g : Graph) (terminals : List Endpoint) (settings : Settings)
    (chains : List Chain) : Prop where
  /-- The nodes are nodes of the graph. -/
  nodes : ∀ c ∈ chains, g.node? c.node.id = some c.node
  /-- Each is written once, by ascending number. -/
  ascending : chains.Pairwise fun c d => c.node.id < d.node.id
  /-- A node has a label for each of its pads up to the highest that was asked for. -/
  width : ∀ c ∈ chains, ∃ highest,
    IsGreatest {i | ∃ label, g.pads.find? ⟨c.node.id, i⟩ = some label} highest ∧
    c.outputs.length = highest + 1
  /-- So it has at least one and no more than there may be pads. -/
  bounds : ∀ c ∈ chains, 1 ≤ c.outputs.length ∧ c.outputs.length ≤ 1024
  /-- A pad that was asked for under a label has it. -/
  named : ∀ c ∈ chains, ∀ i l, g.pads.find? ⟨c.node.id, i⟩ = some (some l) →
    c.outputs[i]? = some l
  /-- The other labels are numbered by the successive numbers that are free. -/
  numbered : ∃ numbers,
    (assigned g chains).map Label.text = numbers.map (fun m => settings.stem ++ toString m) ∧
    Successive settings.first
      (fun m => ∀ l, Reserves g terminals chains l → l.text ≠ settings.stem ++ toString m) numbers
  /-- These are plain words. -/
  words : ∀ l ∈ assigned g chains, Settings.IsPlainWord l.text

/-- The first so many of ascending numbers are successive among all of them. -/
lemma successive_take {numbers : List Nat} {first : Nat} {free : Nat → Prop} (limit count : Nat)
    (hsorted : numbers.Pairwise (· < ·))
    (hmem : ∀ m, m ∈ numbers ↔ first ≤ m ∧ m < limit ∧ free m) :
    Successive first free (numbers.take count) where
  ascending := hsorted.sublist (List.take_sublist _ _)
  free m hm := by
    obtain ⟨hle, -, hfree⟩ := (hmem m).mp (List.mem_of_mem_take hm)
    exact ⟨hle, hfree⟩
  gapless m hm k hk hlt hfree := by
    have hlimit := ((hmem m).mp (List.mem_of_mem_take hm)).2.1
    have hk : k ∈ numbers := (hmem k).mpr ⟨hk, hlt.trans hlimit, hfree⟩
    rw [← List.take_append_drop count numbers] at hk hsorted
    rcases List.mem_append.mp hk with hk | hk
    · exact hk
    · have := (List.pairwise_append.mp hsorted).2.2 m hm k hk
      omega

end Expression

/-- A plain word with a number behind it is a plain word. -/
lemma Settings.isPlainWord_append {stem : String} (h : IsPlainWord stem) (m : Nat) :
    IsPlainWord (stem ++ toString m) := by
  obtain ⟨c, rest, hchars, hfirst, hrest⟩ := h
  refine ⟨c, rest ++ (toString m).toList, by simp [hchars], hfirst, fun d hd => ?_⟩
  rcases List.mem_append.mp hd with hd | hd
  · exact hrest d hd
  · rw [Nat.toString_eq_repr, Nat.toList_repr] at hd
    have hdigit := Nat.isDigit_of_mem_toDigits (by omega) (by omega) hd
    exact .inl (by simp [Char.isAlphanum, hdigit])

namespace Labelling

variable {g : Graph} {nodes : List Node} {terminals : List Endpoint} {settings : Settings}
  {labelling : Labelling} {seeds : List Nat}

/-- The pads of a filling that were not asked for under a label have the first labels of the
pool. -/
lemma map_snd_filter_fill (pads : List Pad) (pool : List Label) :
    ((fill g pads pool).filter fun x => (g.labelOf? (.pad x.1)).isNone).map Prod.snd =
      pool.take (unnamed g pads).length := by
  fun_induction fill g pads pool with
  | case1 => rfl
  | case2 p rest pool l hnamed ih => simp [hnamed, ih, unnamed_of_named hnamed]
  | case3 p rest hunnamed => simp
  | case4 p rest hunnamed l pool ih => simp [hunnamed, ih, unnamed_of_unnamed hunnamed]

/-- The labels of a row with their pads. -/
lemma zip_writtenPads {node : Nat} {labels : List Label}
    (h : labels.length = (g.writtenPads node).length) :
    (g.writtenPads node).zip labels = labels.zipIdx.map fun x => (⟨node, x.2⟩, x.1) := by
  refine List.ext_getElem (by simp [h]) fun i hi _ => ?_
  rw [List.length_zip, h, Nat.min_self] at hi
  have hpad := Graph.getElem?_writtenPads (List.getElem?_eq_getElem hi)
  simp [hpad]

namespace Suits

/-- The labels of a node are those of its row. -/
lemma length_outputs (h : labelling.Suits g nodes terminals settings) (ho : g.Ordered seeds nodes)
    {n : Node} (hn : n ∈ nodes) :
    (labelling.outputs n.id).length = (g.writtenPads n.id).length := by
  have hid : n.id ∈ labelling.rows.map Prod.fst := h.table.nodes ▸ List.mem_map_of_mem hn
  obtain ⟨row, hrow, hsame⟩ := List.mem_map.mp hid
  have houtputs : labelling.outputs row.1 = row.2 := h.table.outputs_eq ho.nodup_ids hrow
  rw [← hsame, houtputs, h.table.full row hrow]

/-- **What is written are the pads of the nodes with their filling.** -/
theorem outputPads_eq (h : labelling.Suits g nodes terminals settings)
    (ho : g.Ordered seeds nodes) :
    Expression.outputPads (nodes.map (g.chain labelling)) =
      fill g (padsOf g nodes) (pool g nodes terminals settings) := by
  let cells (id : Nat) : List (Pad × Label) := (g.writtenPads id).zip (labelling.outputs id)
  have hrows : (labelling.rows.flatMap fun row => (g.writtenPads row.1).zip row.2) =
      labelling.rows.flatMap fun row => cells row.1 := by
    refine List.flatMap_congr fun row hrow => ?_
    have houtputs : labelling.outputs row.1 = row.2 := h.table.outputs_eq ho.nodup_ids hrow
    simp only [cells, houtputs]
  calc Expression.outputPads (nodes.map (g.chain labelling))
      = nodes.flatMap fun n => cells n.id := by
        rw [Expression.outputPads, List.flatMap_map]
        exact List.flatMap_congr fun n hn => (zip_writtenPads (h.length_outputs ho hn)).symm
    _ = (labelling.rows.map Prod.fst).flatMap cells := by rw [h.table.nodes, List.flatMap_map]
    _ = fill g (padsOf g nodes) (pool g nodes terminals settings) := by
        rw [List.flatMap_map, ← hrows, h.table.cells]

end Suits

/-- A label is reserved in an expression exactly if the compilation keeps it back. -/
lemma reserves_iff {l : Label} :
    Expression.Reserves g terminals (nodes.map (g.chain labelling)) l ↔
      l ∈ usedLabels g nodes terminals := by
  simp [Expression.Reserves, mem_usedLabels, Graph.chain, Graph.labelOf?,
    Option.join_eq_some_iff]

end Labelling

namespace Graph

variable {g : Graph} {nodes : List Node} {terminals : List Endpoint} {settings : Settings}
  {labelling : Labelling}

/-- A node is written with its pads up to the highest that was asked for. -/
lemma exists_highest {node : Nat} (h : g.requestedPads node ≠ []) :
    ∃ highest, IsGreatest {i | ∃ label, g.pads.find? ⟨node, i⟩ = some label} highest ∧
      (g.writtenPads node).length = highest + 1 := by
  obtain ⟨⟨highest, label⟩, hlast⟩ := Option.ne_none_iff_exists'.mp
    (mt List.getLast?_eq_none_iff.mp h)
  obtain ⟨hasked, hmax⟩ := getLast?_requestedPads hlast
  refine ⟨highest, ⟨⟨label, hasked⟩, fun i ⟨l, hi⟩ => hmax i l hi⟩, ?_⟩
  rw [writtenPads, hlast]
  simp

/-- A pad of a written node that was asked for under a label has it at its position. -/
lemma getElem?_outputs_of_named (ho : g.Ordered (seeds terminals) nodes)
    (h : labelling.Suits g nodes terminals settings) {n : Node} (hn : n ∈ nodes) {i : Nat}
    {l : Label} (hpad : g.pads.find? ⟨n.id, i⟩ = some (some l)) :
    (labelling.outputs n.id)[i]? = some l := by
  have hwritten : (⟨n.id, i⟩ : Pad) ∈ Labelling.padsOf g nodes :=
    Labelling.mem_padsOf.mpr ⟨List.mem_map_of_mem hn, i, _, hpad, Nat.le_refl i⟩
  have hnamed : g.labelOf? (.pad ⟨n.id, i⟩) = some l := by rw [labelOf?, hpad, Option.join_some]
  obtain ⟨m, hm⟩ := h.exists_label ho hwritten
  rcases h.named_or_fresh ho hm with hsame | ⟨hnone, -⟩
  · obtain rfl := Option.some.inj (hsame.symm.trans hnamed)
    exact Labelling.labelOf_pad_eq_ok_iff.mp hm
  · simp [hnamed] at hnone

/-- The labels that are assigned in an expression are numbered by the first numbers that the supply
has left. -/
lemma map_text_assigned (ho : g.Ordered (seeds terminals) nodes)
    (h : labelling.Suits g nodes terminals settings) :
    (Expression.assigned g (nodes.map (g.chain labelling))).map Label.text =
      ((Labelling.supply g nodes terminals settings).freeNumbers.take
        (Labelling.unnamed g (Labelling.padsOf g nodes)).length).map
          (fun m => settings.stem ++ toString m) := by
  have hword : (Labelling.supply g nodes terminals settings).Worded :=
    Labelling.worded_supply h.word
  rw [Expression.assigned, h.outputPads_eq ho, Labelling.map_snd_filter_fill, List.map_take,
    Labelling.pool, hword.map_text_freeLabels, ← List.map_take]
  exact List.map_congr_left fun m _ => Labelling.candidate_supply m

/-- The expression of nodes and terminals with a labelling of theirs is labelled as it should be.

**Proof sketch.** What is written are the pads of the nodes with their filling, and the pads that
were not asked for under a label have the first labels of the pool. These are numbered by the free
numbers in ascending order. -/
theorem labelled_expression (hg : g.WellFormed) (hterminals : ∀ e ∈ terminals, g.Knows e)
    (ho : g.Ordered (seeds terminals) nodes) (h : labelling.Suits g nodes terminals settings) :
    Expression.Labelled g terminals settings (nodes.map (g.chain labelling)) := by
  have hwidth : ∀ n ∈ nodes, ∃ highest,
      IsGreatest {i | ∃ label, g.pads.find? ⟨n.id, i⟩ = some label} highest ∧
        (labelling.outputs n.id).length = highest + 1 := by
    intro n hn
    rw [h.length_outputs ho hn]
    exact exists_highest (requestedPads_ne_nil hg hterminals ho n hn)
  constructor
  case nodes =>
    rw [List.forall_mem_map]
    exact fun n hn => (ho.mem_iff.mp hn).2
  case ascending => exact List.pairwise_map.mpr ho.ascending
  case width =>
    rw [List.forall_mem_map]
    exact hwidth
  case bounds =>
    rw [List.forall_mem_map]
    intro n hn
    obtain ⟨highest, ⟨⟨label, hasked⟩, -⟩, hlength⟩ := hwidth n hn
    have hlimit : highest < 1024 := (hg.pad_place hasked).2
    simp only [chain, hlength]
    omega
  case named =>
    rw [List.forall_mem_map]
    exact fun n hn i l hpad => getElem?_outputs_of_named ho h hn hpad
  case numbered =>
    refine ⟨_, map_text_assigned ho h, Expression.successive_take LabelSupply.limit _
      (LabelSupply.pairwise_freeNumbers _) fun m => ?_⟩
    simp only [Labelling.mem_freeNumbers_supply, Labelling.reserves_iff]
  case words =>
    intro l hl
    have htext : l.text ∈ (Expression.assigned g (nodes.map (g.chain labelling))).map Label.text :=
      List.mem_map_of_mem hl
    rw [map_text_assigned ho h, List.mem_map] at htext
    obtain ⟨m, -, hm⟩ := htext
    exact hm ▸ Settings.isPlainWord_append (Settings.isWord_iff.mp h.word) m

end Graph

namespace Client

variable {c : Client} {i : Nat} {terminals : List Stream} {settings : Settings}

/-- **The labels of every expression that a client can compile**: a node has a label for each of its
pads up to the highest that was asked for, which are between 1 and 1024. A pad that was asked for
under a label has that one. The labels of the other pads, also of those that were never asked for,
are numbered in the order of the text by the successive free numbers; a number is free if its label
is not that of an endpoint outside that is read or is a terminal, and no pad of a node in the text
was asked for under it.

**Proof sketch.** The expression is that of a labelling of all nodes behind the terminals
(`Client.Sound.compile_eq_ok`), which writes the pads with their filling
(`Graph.labelled_expression`). -/
theorem labelled_of_compile (hc : c.Reachable)
    (hholds : c.Holds (.compile i terminals settings)) {e : Expression}
    (h : c.answer (.compile i terminals settings) = .ok (.expression e)) :
    ∃ chains : List Expression.Chain,
      Expression.LaidOut settings.escape chains e.text ∧
      e.nodeCount = chains.length ∧
      Expression.Labelled (c.session.graph i) (terminals.map Stream.endpoint) settings chains := by
  have hsound := hc.sound
  obtain ⟨nodes, labelling, -, hknown, ho, hsuits, rfl⟩ := hsound.compile_eq_ok hholds h
  refine ⟨nodes.map ((c.session.graph i).chain labelling), Graph.expression_laidOut .., ?_, ?_⟩
  · rw [Graph.expression, List.length_map]
  · exact Graph.labelled_expression (hsound.wellFormed i) hknown ho hsuits

lemma defect?_l2 : Label.defect? "l2" = none := by decide

lemma defect?_l4 : Label.defect? "l4" = none := by decide

/-- A run in which pads of a split picture are asked for with gaps between them, the last one under
the second label that would be assigned. -/
def gapCalls : List Call :=
  let picture : Stream := ⟨0, .external ⟨"l4", defect?_l4⟩, .filterable⟩
  [.source 0 "l4", .split picture, .output ⟨0, 0⟩ (some "l2") (some 3),
    .output ⟨0, 0⟩ none (some 1)]

/-- The last pad of the run compiles to this: the pads below it are numbered, past the label that it
has itself and the one of the picture. -/
def gapExpression : Expression := ⟨"[l4]split[l1][l3][l5][l2]", [⟨"l2", defect?_l2⟩], 1⟩

/-- The numbers 2 and 4 are passed over. -/
theorem labelled_gaps :
    (start.run gapCalls).Reachable ∧
    (start.run gapCalls).Holds (.compile 0 [⟨0, .pad ⟨0, 3⟩, .filterable⟩] {}) ∧
    (start.run gapCalls).answer (.compile 0 [⟨0, .pad ⟨0, 3⟩, .filterable⟩] {}) =
      .ok (.expression gapExpression) ∧
    ∃ chains : List Expression.Chain,
      Expression.LaidOut true chains gapExpression.text ∧
      gapExpression.nodeCount = chains.length ∧
      Expression.Labelled ((start.run gapCalls).session.graph 0) [.pad ⟨0, 3⟩] {} chains := by
  have hrun : (start.run gapCalls).Reachable :=
    Reachable.run (c := start) .refl (by decide +kernel)
  have hholds : (start.run gapCalls).Holds
      (.compile 0 [⟨0, .pad ⟨0, 3⟩, .filterable⟩] {}) := by
    decide +kernel
  have hanswer : (start.run gapCalls).answer
      (.compile 0 [⟨0, .pad ⟨0, 3⟩, .filterable⟩] {}) = .ok (.expression gapExpression) := by
    decide +kernel
  exact ⟨hrun, hholds, hanswer, labelled_of_compile hrun hholds hanswer⟩

end Client

end MediaGraph
