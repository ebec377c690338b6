import Mathlib.Data.List.Nodup
import Mathlib.Data.List.Pairwise
import Mathlib.Tactic.Lemma
import MediaGraph.Expression.Labelling
import MediaGraph.Proofs.LabelSupply
import MediaGraph.Proofs.SortedMap

/-!
# The labels of a compilation

A node is written with all of its pads up to the highest that was asked for. Pads that were asked
for under a label have that one. The others, in the order in which they are written, get the labels
that the supply has left; if there are too few of them the labelling overflows.

## Main definitions

* `MediaGraph.Graph.Writes`, `MediaGraph.Graph.writtenPads` — the pads that a node is written with.
* `MediaGraph.Labelling.unnamed` — those of a list of pads that have no label yet.
* `MediaGraph.Labelling.fill` — pads with their labels, where a pool gives those that are missing.

## Main results

* `MediaGraph.Labelling.nodup_fill` — no label is given twice.
* `MediaGraph.Labelling.assignNodes_done`, `MediaGraph.Labelling.assignNodes_overflow` — what an
  assignment does, with and without enough labels.
* `MediaGraph.Labelling.Tabulates.labelOf_eq_ok_iff` — the labels in a labelling are those of the
  filling.
-/

set_option autoImplicit false

namespace MediaGraph

/-! ## The pads that are written -/

namespace Graph

variable {g : Graph} {node : Nat}

lemma mem_requestedPads {i : Nat} {label : Option Label} :
    (i, label) ∈ g.requestedPads node ↔ g.pads.find? ⟨node, i⟩ = some label := by
  simp only [requestedPads, List.mem_map, List.mem_filter, beq_iff_eq, Prod.mk.injEq,
    ← g.pads.mem_toList_iff]
  constructor
  · rintro ⟨⟨⟨n, k⟩, l⟩, ⟨he, rfl⟩, rfl, rfl⟩
    exact he
  · intro he
    exact ⟨_, ⟨he, rfl⟩, rfl, rfl⟩

/-- The pads of a node ascend. -/
lemma pairwise_requestedPads (g : Graph) (node : Nat) :
    (g.requestedPads node).Pairwise fun a b => a.1 < b.1 := by
  rw [requestedPads, List.pairwise_map, List.pairwise_filter]
  refine g.pads.sorted.imp fun {a b} hlt ha hb => ?_
  have hlt : ((compare a.1.node b.1.node).then (compare a.1.index b.1.index)) = .lt := hlt
  have hsame : a.1.node = b.1.node := (beq_iff_eq.mp ha).trans (beq_iff_eq.mp hb).symm
  rw [hsame, Std.compare_self, Ordering.eq_then] at hlt
  exact Nat.compare_eq_lt.mp hlt

/-- The label that is looked up among the pads of a node is the one that the pad was asked for
under. -/
lemma explicitLabel_requestedPads (i : Nat) :
    Labelling.explicitLabel (g.requestedPads node) i = g.labelOf? (.pad ⟨node, i⟩) := by
  rw [Labelling.explicitLabel, labelOf?]
  cases hfind : (g.requestedPads node).find? fun e => e.1 == i with
  | none =>
    rw [List.find?_eq_none] at hfind
    cases hpad : g.pads.find? ⟨node, i⟩ with
    | none => rfl
    | some label => simpa using hfind _ (mem_requestedPads.mpr hpad)
  | some e =>
    obtain ⟨j, label⟩ := e
    obtain rfl : j = i := by simpa using List.find?_some hfind
    rw [mem_requestedPads.mp (List.mem_of_find?_eq_some hfind)]
    rfl

/-- The last of the pads of a node is the highest. -/
lemma getLast?_requestedPads {highest : Nat} {label : Option Label}
    (h : (g.requestedPads node).getLast? = some (highest, label)) :
    g.pads.find? ⟨node, highest⟩ = some label ∧
      ∀ i l, g.pads.find? ⟨node, i⟩ = some l → i ≤ highest := by
  obtain ⟨before, hsplit⟩ := List.getLast?_eq_some_iff.mp h
  refine ⟨mem_requestedPads.mp (hsplit ▸ by simp), fun i l hi => ?_⟩
  have hi := mem_requestedPads.mpr hi
  have hascending := pairwise_requestedPads g node
  rw [hsplit, List.pairwise_append] at hascending
  rw [hsplit, List.mem_append, List.mem_singleton] at hi
  rcases hi with hi | hi
  · exact Nat.le_of_lt (hascending.2.2 _ hi _ List.mem_cons_self)
  · exact Nat.le_of_eq (congrArg Prod.fst hi)

/-- Whether a pad is written with its node: it or a higher pad was asked for. -/
def Writes (g : Graph) (p : Pad) : Prop :=
  ∃ q label, g.pads.find? ⟨p.node, q⟩ = some label ∧ p.index ≤ q

/-- The pads that a node is written with, ascending. -/
def writtenPads (g : Graph) (node : Nat) : List Pad :=
  match (g.requestedPads node).getLast? with
  | none => []
  | some (highest, _) => (List.range (highest + 1)).map (Pad.mk node)

theorem mem_writtenPads {p : Pad} : p ∈ g.writtenPads node ↔ p.node = node ∧ g.Writes p := by
  obtain ⟨n, i⟩ := p
  rw [writtenPads, Writes]
  split
  · next hnone =>
    rw [List.getLast?_eq_none_iff] at hnone
    simp only [List.not_mem_nil, false_iff, not_and]
    rintro rfl ⟨q, label, hq, -⟩
    simpa [hnone] using mem_requestedPads.mpr hq
  · next highest label hlast =>
    obtain ⟨hhighest, hmax⟩ := getLast?_requestedPads hlast
    simp only [List.mem_map, List.mem_range, Pad.mk.injEq]
    constructor
    · rintro ⟨j, hj, rfl, rfl⟩
      exact ⟨rfl, highest, label, hhighest, by omega⟩
    · rintro ⟨rfl, q, l, hq, hle⟩
      have := hmax q l hq
      exact ⟨i, by omega, rfl, rfl⟩

lemma nodup_writtenPads (g : Graph) (node : Nat) : (g.writtenPads node).Nodup := by
  rw [writtenPads]
  split
  · exact List.nodup_nil
  · exact List.nodup_range.map fun i j h => (Pad.mk.inj h).2

/-- A pad stands at its position among the written pads of its node. -/
lemma getElem?_writtenPads {i : Nat} {p : Pad} (h : (g.writtenPads node)[i]? = some p) :
    p = ⟨node, i⟩ := by
  rw [writtenPads] at h
  split at h
  · simp at h
  · rw [List.getElem?_map, Option.map_eq_some_iff] at h
    obtain ⟨j, hj, rfl⟩ := h
    rw [List.getElem?_eq_some_iff] at hj
    obtain ⟨_, rfl⟩ := hj
    simp

end Graph

namespace Labelling

/-! ## Filling in labels -/

/-- The pads that were not asked for under a label. -/
def unnamed (g : Graph) (pads : List Pad) : List Pad :=
  pads.filter fun p => (g.labelOf? (.pad p)).isNone

/-- Pads with their labels. A pad that was asked for under a label has it, the others get the labels
of a pool in its order; it ends where the pool does. -/
def fill (g : Graph) : List Pad → List Label → List (Pad × Label)
  | [], _ => []
  | p :: rest, pool =>
    match g.labelOf? (.pad p) with
    | some l => (p, l) :: fill g rest pool
    | none =>
      match pool with
      | [] => []
      | l :: pool => (p, l) :: fill g rest pool

variable {g : Graph} {p : Pad} {l : Label} {pads : List Pad} {pool : List Label}

lemma fill_of_named (h : g.labelOf? (.pad p) = some l) :
    fill g (p :: pads) pool = (p, l) :: fill g pads pool := by
  simp only [fill.eq_def g (p :: pads), h]

lemma fill_of_unnamed (h : g.labelOf? (.pad p) = none) :
    fill g (p :: pads) (l :: pool) = (p, l) :: fill g pads pool := by
  rw [fill, h]

lemma unnamed_of_named (h : g.labelOf? (.pad p) = some l) :
    unnamed g (p :: pads) = unnamed g pads := by
  simp [unnamed, h]

lemma unnamed_of_unnamed (h : g.labelOf? (.pad p) = none) :
    unnamed g (p :: pads) = p :: unnamed g pads := by
  simp [unnamed, h]

lemma unnamed_append (pads pads' : List Pad) :
    unnamed g (pads ++ pads') = unnamed g pads ++ unnamed g pads' :=
  List.filter_append ..

lemma mem_unnamed : p ∈ unnamed g pads ↔ p ∈ pads ∧ g.labelOf? (.pad p) = none := by
  simp [unnamed]

/-- A pad that was asked for under a label has this label in a filling, another one has a label of
the pool. -/
lemma mem_fill (h : (p, l) ∈ fill g pads pool) :
    g.labelOf? (.pad p) = some l ∨ g.labelOf? (.pad p) = none ∧ l ∈ pool := by
  fun_induction fill g pads pool with
  | case1 => simp at h
  | case2 q rest pool l' hnamed ih =>
    rcases List.mem_cons.mp h with h | h
    · obtain ⟨rfl, rfl⟩ := Prod.mk.inj h
      exact .inl hnamed
    · exact ih h
  | case3 => simp at h
  | case4 q rest hunnamed l' pool ih =>
    rcases List.mem_cons.mp h with h | h
    · obtain ⟨rfl, rfl⟩ := Prod.mk.inj h
      exact .inr ⟨hunnamed, List.mem_cons_self⟩
    · exact (ih h).imp_right fun ⟨hnone, hl⟩ => ⟨hnone, List.mem_cons_of_mem _ hl⟩

/-- Only pads of the list are filled in. -/
lemma mem_of_mem_fill (h : (p, l) ∈ fill g pads pool) : p ∈ pads := by
  fun_induction fill g pads pool with
  | case1 => simp at h
  | case2 q rest pool l' hnamed ih =>
    rcases List.mem_cons.mp h with h | h
    · exact (Prod.mk.inj h).1 ▸ List.mem_cons_self
    · exact List.mem_cons_of_mem _ (ih h)
  | case3 => simp at h
  | case4 q rest hunnamed l' pool ih =>
    rcases List.mem_cons.mp h with h | h
    · exact (Prod.mk.inj h).1 ▸ List.mem_cons_self
    · exact List.mem_cons_of_mem _ (ih h)

/-- If the pool has a label for every pad without one, all pads are filled in. -/
lemma map_fst_fill (h : (unnamed g pads).length ≤ pool.length) :
    (fill g pads pool).map Prod.fst = pads := by
  fun_induction fill g pads pool with
  | case1 => rfl
  | case2 q rest pool l' hnamed ih =>
    rw [unnamed_of_named hnamed] at h
    rw [List.map_cons, ih h]
  | case3 q rest hunnamed => simp [unnamed_of_unnamed hunnamed] at h
  | case4 q rest hunnamed l' pool ih =>
    rw [unnamed_of_unnamed hunnamed, List.length_cons, List.length_cons] at h
    rw [List.map_cons, ih (Nat.le_of_succ_le_succ h)]

/-- Filling in a list of pads in two parts. -/
lemma fill_append {pads' : List Pad} (h : (unnamed g pads).length ≤ pool.length) :
    fill g (pads ++ pads') pool =
      fill g pads pool ++ fill g pads' (pool.drop (unnamed g pads).length) := by
  fun_induction fill g pads pool with
  | case1 => rfl
  | case2 q rest pool l' hnamed ih =>
    rw [unnamed_of_named hnamed] at h ⊢
    rw [List.cons_append, fill_of_named hnamed, ih h, List.cons_append]
  | case3 q rest hunnamed => simp [unnamed_of_unnamed hunnamed] at h
  | case4 q rest hunnamed l' pool ih =>
    rw [unnamed_of_unnamed hunnamed] at h ⊢
    rw [List.cons_append, fill_of_unnamed hunnamed, ih (Nat.le_of_succ_le_succ h),
      List.cons_append, List.length_cons, List.drop_succ_cons]

/-- **No label is given twice**, if no two pads were asked for under the same label, and the pool
has neither a label twice nor one that a pad was asked for under. -/
theorem nodup_fill (hpads : pads.Nodup) (hpool : pool.Nodup)
    (hnamed : ∀ p q l, g.labelOf? (.pad p) = some l → g.labelOf? (.pad q) = some l → p = q)
    (hfresh : ∀ p ∈ pads, ∀ l, g.labelOf? (.pad p) = some l → l ∉ pool) :
    ((fill g pads pool).map Prod.snd).Nodup := by
  fun_induction fill g pads pool with
  | case1 => exact List.nodup_nil
  | case2 q rest pool l' hq ih =>
    obtain ⟨hout, hrest⟩ := List.nodup_cons.mp hpads
    rw [List.map_cons, List.nodup_cons, List.mem_map]
    refine ⟨?_, ih hrest hpool fun p hp => hfresh p (List.mem_cons_of_mem _ hp)⟩
    rintro ⟨⟨p, l⟩, hp, rfl⟩
    rcases mem_fill hp with hnamed' | ⟨-, hl⟩
    · exact hout (hnamed p q l hnamed' hq ▸ mem_of_mem_fill hp)
    · exact hfresh q List.mem_cons_self l hq hl
  | case3 => exact List.nodup_nil
  | case4 q rest hunnamed l' pool ih =>
    obtain ⟨hout, hpool⟩ := List.nodup_cons.mp hpool
    rw [List.map_cons, List.nodup_cons, List.mem_map]
    refine ⟨?_, ih (List.nodup_cons.mp hpads).2 hpool fun p hp l hl hmem =>
      hfresh p (List.mem_cons_of_mem _ hp) l hl (List.mem_cons_of_mem _ hmem)⟩
    rintro ⟨⟨p, l⟩, hp, rfl⟩
    rcases mem_fill hp with hnamed' | ⟨-, hl⟩
    · exact hfresh p (List.mem_cons_of_mem _ (mem_of_mem_fill hp)) l hnamed' List.mem_cons_self
    · exact hout hl

end Labelling

/-! ## Rules for reports -/

namespace Report

variable {α β : Type}

/-- A report in front of other work. -/
lemma run_emit_bind (e : Event) (next : Unit → Report α) (events : Array Event) :
    (emit e >>= next).run events = (next ()).run (events.push e) := rfl

/-- A check in front of other work. -/
lemma run_check_bind (x : Except Error α) (next : α → Report β) (events : Array Event) :
    (check x >>= next).run events =
      match x with
      | .ok a => (next a).run events
      | .error e => .error e events := by
  cases x <;> rfl

end Report

namespace Labelling

/-! ## Running an assignment -/

/-- What is reported of the pads that get labels of a pool. -/
def reports (g : Graph) (pads : List Pad) (pool : List Label) : List Event :=
  ((unnamed g pads).zip pool).map fun e => .labelled e.1.node e.1.index e.2

/-- Some work gives labels to pads from a supply. It answers with `result` and the supply without
the labels that were needed; or it overflows, if there are too few of them. -/
structure Labels {α : Type} (g : Graph) (pads : List Pad) (supply : LabelSupply)
    (work : Report (α × LabelSupply)) (result : α) : Prop where
  /-- If there are enough labels for the pads that need one, the work is done. -/
  done : (unnamed g pads).length ≤ supply.freeLabels.length → ∀ events, ∃ rest,
    work.run events = .ok (result, rest) (events ++ (reports g pads supply.freeLabels).toArray) ∧
    rest.Worded ∧ rest.freeLabels = supply.freeLabels.drop (unnamed g pads).length
  /-- If there are too few, it overflows after the last of them. -/
  overflow : supply.freeLabels.length < (unnamed g pads).length → ∀ events,
    work.run events = .error (.internal .labelOverflow)
      (events ++ (reports g pads supply.freeLabels).toArray)

variable {g : Graph} {node : Nat} {supply : LabelSupply}

lemma reports_of_named {p : Pad} {l : Label} {pads : List Pad} {pool : List Label}
    (h : g.labelOf? (.pad p) = some l) : reports g (p :: pads) pool = reports g pads pool := by
  rw [reports, unnamed_of_named h, reports]

lemma reports_of_unnamed {p : Pad} {l : Label} {pads : List Pad} {pool : List Label}
    (h : g.labelOf? (.pad p) = none) :
    reports g (p :: pads) (l :: pool) = .labelled p.node p.index l :: reports g pads pool := by
  rw [reports, unnamed_of_unnamed h, List.zip_cons_cons, List.map_cons, reports]

/-- A pad that was asked for under a label changes nothing but the answer. -/
lemma Labels.cons_named {p : Pad} {l : Label} {pads : List Pad}
    {work : Report (List Label × LabelSupply)} {labels : List Label}
    (hlabel : g.labelOf? (.pad p) = some l) (h : Labels g pads supply work labels) :
    Labels g (p :: pads) supply (do
      let (labels, supply) ← work
      return (l :: labels, supply)) (l :: labels) := by
  constructor
  · intro henough events
    rw [unnamed_of_named hlabel] at henough ⊢
    obtain ⟨s, hrun, hs⟩ := h.done henough events
    refine ⟨s, ?_, hs⟩
    rw [EStateM.run_bind, hrun, reports_of_named hlabel]
    rfl
  · intro hfew events
    rw [unnamed_of_named hlabel] at hfew
    rw [EStateM.run_bind, h.overflow hfew events, reports_of_named hlabel]

/-- Another pad uses up the first label that is left. -/
lemma Labels.cons_unnamed {p : Pad} {l : Label} {pads : List Pad} {rest : LabelSupply}
    {work : Report (List Label × LabelSupply)} {labels : List Label}
    (hlabel : g.labelOf? (.pad p) = none) (hfree : supply.freeLabels = l :: rest.freeLabels)
    (h : Labels g pads rest work labels) :
    Labels g (p :: pads) supply (do
      Report.emit (.labelled p.node p.index l)
      let (labels, supply) ← work
      return (l :: labels, supply)) (l :: labels) := by
  constructor
  · intro henough events
    rw [unnamed_of_unnamed hlabel, hfree, List.length_cons, List.length_cons] at henough
    obtain ⟨s, hrun, hs, hdrop⟩ :=
      h.done (Nat.le_of_succ_le_succ henough) (events.push (.labelled p.node p.index l))
    refine ⟨s, ?_, hs, ?_⟩
    · rw [Report.run_emit_bind, EStateM.run_bind, hrun, hfree, reports_of_unnamed hlabel]
      simp
    · rw [unnamed_of_unnamed hlabel, hfree, List.length_cons, List.drop_succ_cons, hdrop]
  · intro hfew events
    rw [unnamed_of_unnamed hlabel, hfree, List.length_cons, List.length_cons] at hfew
    have hrun := h.overflow (Nat.lt_of_succ_lt_succ hfew) (events.push (.labelled p.node p.index l))
    rw [Report.run_emit_bind, EStateM.run_bind, hrun, hfree, reports_of_unnamed hlabel]
    simp

/-- If there is no label left for it, it overflows. -/
lemma labels_overflow {α : Type} {p : Pad} {pads : List Pad} {result : α}
    (hlabel : g.labelOf? (.pad p) = none) (hfree : supply.freeLabels = []) :
    Labels g (p :: pads) supply (throw (.internal .labelOverflow)) result := by
  refine ⟨fun henough => ?_, fun _ events => ?_⟩
  · simp [unnamed_of_unnamed hlabel, hfree] at henough
  · rw [reports, hfree, List.zip_nil_right, List.map_nil, Array.append_empty]
    rfl

/-- Labels for the pads at some positions of a node, by induction on the positions. -/
lemma assignPads_labels {explicit : Nat → Option Label}
    (hexplicit : ∀ i, explicit i = g.labelOf? (.pad ⟨node, i⟩)) (indices : List Nat)
    (hs : supply.Worded) :
    Labels g (indices.map (Pad.mk node)) supply (assignPads node explicit indices supply)
      ((fill g (indices.map (Pad.mk node)) supply.freeLabels).map Prod.snd) := by
  induction indices generalizing supply with
  | nil =>
    refine ⟨fun _ events => ⟨supply, ?_, hs, rfl⟩, fun h => ?_⟩
    · simp [reports, unnamed, assignPads, fill]
    · simp [unnamed] at h
  | cons i rest ih =>
    rw [List.map_cons]
    cases hlabel : g.labelOf? (.pad ⟨node, i⟩) with
    | some l =>
      simp only [assignPads, hexplicit, hlabel, fill_of_named hlabel, List.map_cons]
      exact (ih hs).cons_named hlabel
    | none =>
      simp only [assignPads, hexplicit, hlabel]
      cases hfree : supply.freeLabels with
      | nil =>
        rw [hs.next_of_nil hfree]
        exact labels_overflow hlabel hfree
      | cons l pool =>
        obtain ⟨s, hnext, hs, rfl⟩ := hs.next_of_cons hfree
        rw [hnext, fill_of_unnamed hlabel, List.map_cons]
        exact (ih hs).cons_unnamed hlabel hfree

/-- Labels for all pads that a node is written with, if one of them was asked for. -/
lemma assignNode_labels (hrequested : g.requestedPads node ≠ []) (hs : supply.Worded) :
    Labels g (g.writtenPads node) supply (assignNode g node supply)
      ((fill g (g.writtenPads node) supply.freeLabels).map Prod.snd) := by
  obtain ⟨⟨highest, label⟩, hlast⟩ := Option.ne_none_iff_exists'.mp
    (mt List.getLast?_eq_none_iff.mp hrequested)
  have hpads : g.writtenPads node = (List.range (highest + 1)).map (Pad.mk node) := by
    rw [Graph.writtenPads, hlast]
  rw [assignNode, hlast, hpads]
  exact assignPads_labels Graph.explicitLabel_requestedPads _ hs

/-- Pairs with the elements of a list in two parts. -/
private lemma zip_append_left {α β : Type} (as as' : List α) (bs : List β) :
    (as ++ as').zip bs = as.zip bs ++ as'.zip (bs.drop as.length) := by
  induction as generalizing bs with
  | nil => rfl
  | cons a as ih => cases bs <;> simp [ih]

lemma reports_append (pads pads' : List Pad) (pool : List Label) :
    reports g (pads ++ pads') pool =
      reports g pads pool ++ reports g pads' (pool.drop (unnamed g pads).length) := by
  rw [reports, unnamed_append, reports, reports, ← List.map_append]
  exact congrArg _ (zip_append_left _ _ _)

/-- Rows hold the labels of a filling: one row for each node, with a label for every pad that the
node is written with. -/
structure Tabulates (g : Graph) (nodes : List Nat) (filling : List (Pad × Label))
    (rows : List (Nat × List Label)) : Prop where
  /-- There is one row for each node. -/
  nodes : rows.map Prod.fst = nodes
  /-- A row is as long as the list of pads that its node is written with. -/
  full : ∀ row ∈ rows, row.2.length = (g.writtenPads row.1).length
  /-- Read row by row, the labels are those of the filling. -/
  cells : (rows.flatMap fun row => (g.writtenPads row.1).zip row.2) = filling

/-- One more row, for a node all of whose pads are filled in. -/
lemma Tabulates.cons {nodes : List Nat} {filling : List (Pad × Label)}
    {rows : List (Nat × List Label)} {pool : List Label} (h : Tabulates g nodes filling rows)
    (henough : (unnamed g (g.writtenPads node)).length ≤ pool.length) :
    Tabulates g (node :: nodes) (fill g (g.writtenPads node) pool ++ filling)
      ((node, (fill g (g.writtenPads node) pool).map Prod.snd) :: rows) where
  nodes := by rw [List.map_cons, h.nodes]
  full := by
    intro row hrow
    rcases List.mem_cons.mp hrow with rfl | hrow
    · simpa using congrArg List.length (map_fst_fill henough)
    · exact h.full row hrow
  cells := by
    rw [List.flatMap_cons, h.cells]
    exact congrArg (· ++ filling) (List.zip_of_prod (map_fst_fill henough) rfl).symm

/-- The labels of all pads that nodes are written with, if there are enough. -/
theorem assignNodes_done {nodes : List Nat} (hrequested : ∀ n ∈ nodes, g.requestedPads n ≠ [])
    (hs : supply.Worded)
    (h : (unnamed g (nodes.flatMap g.writtenPads)).length ≤ supply.freeLabels.length)
    (events : Array Event) :
    ∃ rows, (assignNodes g nodes supply).run events =
        .ok rows (events ++ (reports g (nodes.flatMap g.writtenPads) supply.freeLabels).toArray) ∧
      Tabulates g nodes (fill g (nodes.flatMap g.writtenPads) supply.freeLabels) rows := by
  induction nodes generalizing supply events with
  | nil =>
    refine ⟨[], ?_, rfl, by simp, rfl⟩
    simp [assignNodes, reports, unnamed]
  | cons node rest ih =>
    rw [List.flatMap_cons, unnamed_append, List.length_append] at h
    have hnode := assignNode_labels (hrequested node List.mem_cons_self) hs
    obtain ⟨s', hrun, hs', hdrop⟩ := hnode.done (by omega) events
    obtain ⟨rows, hrows, htab⟩ := ih (fun n hn => hrequested n (List.mem_cons_of_mem _ hn)) hs'
      (by rw [hdrop, List.length_drop]; omega)
      (events ++ (reports g (g.writtenPads node) supply.freeLabels).toArray)
    refine ⟨(node, (fill g (g.writtenPads node) supply.freeLabels).map Prod.snd) :: rows, ?_, ?_⟩
    · rw [assignNodes, EStateM.run_bind, hrun]
      simp only
      rw [EStateM.run_bind, hrows, List.flatMap_cons, reports_append, hdrop]
      simp [Array.append_assoc]
    · rw [List.flatMap_cons, fill_append (by omega), ← hdrop]
      exact htab.cons (by omega)

/-- Too few labels for the pads that nodes are written with. -/
theorem assignNodes_overflow {nodes : List Nat} (hrequested : ∀ n ∈ nodes, g.requestedPads n ≠ [])
    (hs : supply.Worded)
    (h : supply.freeLabels.length < (unnamed g (nodes.flatMap g.writtenPads)).length)
    (events : Array Event) :
    (assignNodes g nodes supply).run events = .error (.internal .labelOverflow)
      (events ++ (reports g (nodes.flatMap g.writtenPads) supply.freeLabels).toArray) := by
  induction nodes generalizing supply events with
  | nil => simp [unnamed] at h
  | cons node rest ih =>
    rw [List.flatMap_cons, unnamed_append, List.length_append] at h
    have hnode := assignNode_labels (hrequested node List.mem_cons_self) hs
    rw [assignNodes, List.flatMap_cons, EStateM.run_bind, reports_append]
    by_cases hfirst : (unnamed g (g.writtenPads node)).length ≤ supply.freeLabels.length
    · obtain ⟨s', hrun, hs', hdrop⟩ := hnode.done hfirst events
      rw [hrun]
      simp only
      rw [EStateM.run_bind, ih (fun n hn => hrequested n (List.mem_cons_of_mem _ hn)) hs'
        (by rw [hdrop, List.length_drop]; omega), hdrop]
      simp [Array.append_assoc]
    · rw [hnode.overflow (by omega) events, List.drop_of_length_le (by omega)]
      simp [reports]

/-! ## Looking labels up -/

/-- The label of a pad stands at its position among those of its node. -/
lemma labelOf_pad_eq_ok_iff {labelling : Labelling} {p : Pad} {l : Label} :
    labelling.labelOf (.pad p) = .ok l ↔ (labelling.outputs p.node)[p.index]? = some l := by
  rw [labelOf]
  split <;> simp_all

namespace Tabulates

variable {nodes : List Nat} {filling : List (Pad × Label)} {rows : List (Nat × List Label)}

/-- The labels of a node are those of its row. -/
lemma outputs_eq (h : Tabulates g nodes filling rows) (hnodes : nodes.Nodup)
    {row : Nat × List Label} (hrow : row ∈ rows) :
    (⟨rows⟩ : Labelling).outputs row.1 = row.2 := by
  obtain ⟨row', hfind⟩ : ∃ row', rows.find? (fun r => r.1 == row.1) = some row' := by
    rw [← Option.isSome_iff_exists, List.find?_isSome]
    exact ⟨row, hrow, beq_self_eq_true _⟩
  have hsame : row' = row :=
    List.inj_on_of_nodup_map (h.nodes ▸ hnodes) (List.mem_of_find?_eq_some hfind) hrow
      (by simpa using List.find?_some hfind)
  rw [outputs, hfind, hsame]
  rfl

/-- The labels of pads are those of the filling. -/
theorem labelOf_eq_ok_iff (h : Tabulates g nodes filling rows) (hnodes : nodes.Nodup) {p : Pad}
    {l : Label} : (⟨rows⟩ : Labelling).labelOf (.pad p) = .ok l ↔ (p, l) ∈ filling := by
  rw [labelOf_pad_eq_ok_iff, ← h.cells, List.mem_flatMap]
  constructor
  · intro hl
    have hfound : ∃ row ∈ rows, row.1 = p.node := by
      by_contra hnone
      have hempty : (⟨rows⟩ : Labelling).outputs p.node = [] := by
        rw [outputs, List.find?_eq_none.mpr]
        · rfl
        · intro row hrow hsame
          exact hnone ⟨row, hrow, beq_iff_eq.mp hsame⟩
      simp [hempty] at hl
    obtain ⟨row, hrow, hnode⟩ := hfound
    rw [← hnode, h.outputs_eq hnodes hrow] at hl
    have hindex : p.index < (g.writtenPads row.1).length :=
      h.full row hrow ▸ (List.getElem?_eq_some_iff.mp hl).1
    have hpad : (g.writtenPads row.1)[p.index]? = some p := by
      have hget := List.getElem?_eq_getElem hindex
      rw [hget, Graph.getElem?_writtenPads hget, hnode]
    refine ⟨row, hrow, List.mem_iff_getElem?.mpr ⟨p.index, ?_⟩⟩
    rw [List.getElem?_zip_eq_some]
    exact ⟨hpad, hl⟩
  · rintro ⟨row, hrow, hcell⟩
    obtain ⟨i, hi⟩ := List.mem_iff_getElem?.mp hcell
    rw [List.getElem?_zip_eq_some] at hi
    obtain rfl : p = ⟨row.1, i⟩ := Graph.getElem?_writtenPads hi.1
    rw [h.outputs_eq hnodes hrow]
    exact hi.2

end Tabulates

/-! ## The supply of a compilation -/

/-- A label is kept back exactly if it is that of an endpoint outside that a node reads or that is
a terminal, or if a pad of a node was asked for under it. -/
lemma mem_usedLabels {nodes : List Node} {terminals : List Endpoint} {l : Label} :
    l ∈ usedLabels g nodes terminals ↔
      (∃ n ∈ nodes, .external l ∈ n.inputs) ∨ .external l ∈ terminals ∨
        ∃ n ∈ nodes, ∃ i, g.labelOf? (.pad ⟨n.id, i⟩) = some l := by
  have hexternal : ∀ e, externalLabel? e = some l ↔ e = .external l := by
    intro e
    cases e <;> simp [externalLabel?]
  have hnamed : ∀ n : Node, l ∈ (g.requestedPads n.id).filterMap Prod.snd ↔
      ∃ i, g.labelOf? (.pad ⟨n.id, i⟩) = some l := by
    intro n
    simp only [List.mem_filterMap, Graph.labelOf?, Option.join_eq_some_iff,
      ← Graph.mem_requestedPads]
    constructor
    · rintro ⟨⟨i, label⟩, hi, rfl⟩
      exact ⟨i, hi⟩
    · rintro ⟨i, hi⟩
      exact ⟨_, hi, rfl⟩
  simp only [usedLabels, List.mem_append, List.mem_filterMap, List.mem_flatMap, hexternal, hnamed,
    exists_eq_right, or_assoc]

/-- The free numbers of the supply of a compilation. -/
lemma mem_freeNumbers_supply {nodes : List Node} {terminals : List Endpoint} {settings : Settings}
    {m : Nat} :
    m ∈ (Labelling.supply g nodes terminals settings).freeNumbers ↔
      settings.first ≤ m ∧ m < LabelSupply.limit ∧
        ∀ l ∈ usedLabels g nodes terminals, l.text ≠ settings.stem ++ toString m := by
  rw [LabelSupply.mem_freeNumbers, Labelling.supply, LabelSupply.foldl_reserve]
  simp [LabelSupply.start, LabelSupply.candidate]

/-- The supply of a compilation makes labels of the stem of the settings. -/
lemma candidate_supply {nodes : List Node} {terminals : List Endpoint} {settings : Settings}
    (m : Nat) :
    (Labelling.supply g nodes terminals settings).candidate m = settings.stem ++ toString m := by
  rw [Labelling.supply, LabelSupply.foldl_reserve]
  rfl

/-- The supply of a compilation has the stem of the settings. -/
lemma worded_supply {nodes : List Node} {terminals : List Endpoint} {settings : Settings}
    (h : Settings.isWord settings.stem.toList) :
    (Labelling.supply g nodes terminals settings).Worded := by
  rw [LabelSupply.Worded, Labelling.supply, LabelSupply.foldl_reserve]
  exact h

end Labelling

end MediaGraph
