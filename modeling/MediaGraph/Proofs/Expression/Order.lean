import Mathlib.Data.Set.Card
import MediaGraph.Expression
import MediaGraph.Proofs.Graph.Ancestors
import MediaGraph.Proofs.Graph.Construction
import MediaGraph.Proofs.Schedule

/-!
# The nodes of an expression

The nodes that are written for some streams are exactly those behind them, each once and in
ascending order. A node reads only from nodes with smaller numbers, so it is written after them.

## Main definitions

* `MediaGraph.Graph.Ordered` — a list is that of all nodes behind some seeds, ascending.

## Main results

* `MediaGraph.Graph.sortedAncestors_eq_ok` — the list is found if there is a seed.
* `MediaGraph.Graph.sortedAncestors_of_nil` — it is refused if there is none.
-/

set_option autoImplicit false

namespace MediaGraph

/-- Lists that ascend by some number are the same if they have the same elements. -/
lemma eq_of_ascending {α : Type} {key : α → Nat} {l l' : List α}
    (h : l.Pairwise fun a b => key a < key b) (h' : l'.Pairwise fun a b => key a < key b)
    (hmem : ∀ a, a ∈ l ↔ a ∈ l') : l = l' :=
  SortedMap.eq_of_sorted (h.imp Nat.compare_eq_lt.mpr) (h'.imp Nat.compare_eq_lt.mpr) hmem

/-- The elements of a list without repetitions are as many as the list is long. -/
lemma ncard_setOf_mem {α : Type} [DecidableEq α] {l : List α} (h : l.Nodup) :
    {a | a ∈ l}.ncard = l.length := by
  rw [← List.coe_toFinset, Set.ncard_coe_finset, List.toFinset_card_of_nodup h]

namespace SortedMap

variable {κ β : Type} [Ord κ] [Std.TransOrd κ] [Std.LawfulEqOrd κ]

/-- A map in which a key is found is not empty. -/
lemma isEmpty_of_find? {m : SortedMap κ β} {k : κ} {v : β} (h : m.find? k = some v) :
    m.isEmpty = false := by
  have hentry := m.mem_toList_iff.mpr h
  rw [isEmpty, List.isEmpty_eq_false_iff]
  exact List.ne_nil_of_mem hentry

/-- Looking up every key gives the values. -/
lemma filterMap_find?_keys (m : SortedMap κ β) :
    m.keys.filterMap m.find? = m.toList.map Prod.snd := by
  have hvalues : ∀ e ∈ m.toList, m.find? e.1 = some e.2 := fun e he => m.mem_toList_iff.mp he
  rw [keys, List.filterMap_map, ← List.filterMap_eq_map]
  exact List.filterMap_congr hvalues

end SortedMap

namespace Graph

variable {g : Graph} {seeds : List Nat}

/-- A list is that of all nodes behind some seeds, by ascending number. -/
structure Ordered (g : Graph) (seeds : List Nat) (nodes : List Node) : Prop where
  /-- The nodes are those of the graph that are behind the seeds. -/
  mem_iff : ∀ {n}, n ∈ nodes ↔ g.Behind seeds n.id ∧ g.node? n.id = some n
  /-- Their numbers ascend. -/
  ascending : nodes.Pairwise fun a b => a.id < b.id

namespace Ordered

variable {nodes : List Node}

/-- There is one such list. -/
lemma unique (h : g.Ordered seeds nodes) {nodes' : List Node} (h' : g.Ordered seeds nodes') :
    nodes' = nodes := by
  refine eq_of_ascending h'.ascending h.ascending fun n => ?_
  rw [h.mem_iff, h'.mem_iff]

/-- No number occurs twice. -/
lemma nodup_ids (h : g.Ordered seeds nodes) : (nodes.map Node.id).Nodup :=
  List.pairwise_map.mpr (h.ascending.imp Nat.ne_of_lt)

/-- A number occurs exactly if its node is behind the seeds. -/
lemma mem_ids_iff (hg : g.WellFormed) (hseeds : ∀ s ∈ seeds, s < g.nodes.size)
    (h : g.Ordered seeds nodes) {id : Nat} : id ∈ nodes.map Node.id ↔ g.Behind seeds id := by
  rw [List.mem_map]
  constructor
  · rintro ⟨n, hn, rfl⟩
    exact (h.mem_iff.mp hn).1
  · intro hbehind
    have hroom := hg.behind_lt hseeds hbehind
    have hnode : g.node? id = some g.nodes[id] := Array.getElem?_eq_getElem hroom
    have hid := hg.node_id hnode
    exact ⟨_, h.mem_iff.mpr (by rw [hid]; exact ⟨hbehind, hnode⟩), hid⟩

/-- If there is a seed there is a node. -/
lemma ne_nil (hg : g.WellFormed) (hseeds : ∀ s ∈ seeds, s < g.nodes.size)
    (h : g.Ordered seeds nodes) (hsome : seeds ≠ []) : nodes ≠ [] := by
  obtain ⟨s, rest, rfl⟩ := List.exists_cons_of_ne_nil hsome
  have hs := (h.mem_ids_iff hg hseeds).mpr (.of_mem List.mem_cons_self)
  exact mt List.map_eq_nil_iff.mpr (List.ne_nil_of_mem hs)

/-- The places of nodes in the list are ordered as their numbers. -/
lemma id_lt_iff (h : g.Ordered seeds nodes) {j k : Nat} {m n : Node} (hm : nodes[j]? = some m)
    (hn : nodes[k]? = some n) : m.id < n.id ↔ j < k := by
  have hascending := List.pairwise_iff_getElem.mp h.ascending
  obtain ⟨hj, rfl⟩ := List.getElem?_eq_some_iff.mp hm
  obtain ⟨hk, rfl⟩ := List.getElem?_eq_some_iff.mp hn
  constructor
  · intro hlt
    by_contra hle
    rcases Nat.lt_or_eq_of_le (Nat.le_of_not_lt hle) with hkj | rfl
    · have := hascending k j hk hj hkj
      omega
    · omega
  · exact hascending j k hj hk

/-- What a node in the list reads from is in the list, and has a smaller number. -/
lemma reads (hg : g.WellFormed) (hseeds : ∀ s ∈ seeds, s < g.nodes.size)
    (h : g.Ordered seeds nodes) {n : Node} (hn : n ∈ nodes) {p : Pad} (hp : .pad p ∈ n.inputs) :
    p.node < n.id ∧ p.node ∈ nodes.map Node.id := by
  obtain ⟨hbehind, hnode⟩ := h.mem_iff.mp hn
  refine ⟨(hg.reads_pad hnode hp).1, (h.mem_ids_iff hg hseeds).mpr ?_⟩
  exact hbehind.tail ⟨n, hnode, Node.mem_feeders_iff.mpr ⟨p, hp, rfl⟩⟩

/-- The values of a map of the nodes behind some seeds, each under its number. -/
lemma of_found (hg : g.WellFormed) {found : SortedMap Nat Node}
    (hfound : ∀ id n, found.find? id = some n ↔ g.Behind seeds id ∧ g.node? id = some n) :
    g.Ordered seeds (found.toList.map Prod.snd) := by
  have hid : ∀ {id n}, (id, n) ∈ found.toList → n.id = id := fun he =>
    hg.node_id ((hfound _ _).mp (found.mem_toList_iff.mp he)).2
  constructor
  case mem_iff =>
    intro n
    rw [← hfound, ← found.mem_toList_iff, List.mem_map]
    constructor
    · rintro ⟨⟨id, n⟩, he, rfl⟩
      exact hid he ▸ he
    · intro he
      exact ⟨_, he, rfl⟩
  case ascending =>
    rw [List.pairwise_map]
    refine found.sorted.imp_of_mem fun {a b} ha hb hlt => ?_
    rw [hid ha, hid hb]
    exact Nat.compare_eq_lt.mp hlt

end Ordered

/-- The plan of nodes that were found, and what it holds. -/
private lemma find?_plan (found : SortedMap Nat Node) :
    ∃ plan : Plan, plan = SortedMap.ofList (found.toList.map fun e => (e.1, e.2.feeders)) ∧
      plan.keys = found.keys ∧
      ∀ id feeders, plan.find? id = some feeders ↔
        ∃ n, found.find? id = some n ∧ n.feeders = feeders := by
  have hlist : (SortedMap.ofList (found.toList.map fun e => (e.1, e.2.feeders)) : Plan).toList =
      found.toList.map fun e => (e.1, e.2.feeders) :=
    SortedMap.toList_ofList (List.pairwise_map.mpr found.sorted)
  refine ⟨_, rfl, ?_, fun id feeders => ?_⟩
  · rw [SortedMap.keys, hlist, List.map_map]
    rfl
  · rw [← SortedMap.mem_toList_iff, hlist, List.mem_map]
    constructor
    · rintro ⟨⟨i, n⟩, he, heq⟩
      obtain ⟨rfl, rfl⟩ := Prod.mk.inj heq
      exact ⟨n, found.mem_toList_iff.mp he, rfl⟩
    · rintro ⟨n, hn, rfl⟩
      exact ⟨(id, n), found.mem_toList_iff.mpr hn, rfl⟩

/-- **The nodes behind some seeds are found and put in ascending order.**

**Proof sketch.** The search finds the nodes behind the seeds. Each of them reads only from nodes
with smaller numbers, which the search found too, so the plan is numbered. -/
theorem sortedAncestors_eq_ok (hg : g.WellFormed) (hseeds : ∀ s ∈ seeds, s < g.nodes.size)
    (hsome : seeds ≠ []) :
    ∃ nodes, g.sortedAncestors seeds = .ok nodes ∧ g.Ordered seeds nodes := by
  obtain ⟨found, hsearch, hfound⟩ := ancestors_eq_ok hg hseeds
  obtain ⟨plan, hplan, hkeys, hfeeders⟩ := find?_plan found
  have hnumbered : plan.Numbered := by
    intro id feeders hid a ha
    obtain ⟨n, hn, rfl⟩ := (hfeeders id feeders).mp hid
    obtain ⟨hbehind, hnode⟩ := (hfound id n).mp hn
    have hreads : g.Reads id a := ⟨n, hnode, ha⟩
    have hroom := hg.behind_lt hseeds (hbehind.tail hreads)
    refine ⟨hg.reads_lt hreads, plan.contains_iff_mem_keys.mpr (hkeys ▸ ?_)⟩
    exact found.mem_keys_iff.mpr
      ⟨_, (hfound a _).mpr ⟨hbehind.tail hreads, Array.getElem?_eq_getElem hroom⟩⟩
  have hnonempty : found.isEmpty = false := by
    obtain ⟨s, rest, rfl⟩ := List.exists_cons_of_ne_nil hsome
    exact SortedMap.isEmpty_of_find? ((hfound s _).mpr ⟨.of_mem List.mem_cons_self,
      Array.getElem?_eq_getElem (hseeds s List.mem_cons_self)⟩)
  have horder : Fault.lift plan.order = .ok found.keys := by
    rw [hnumbered.order_eq, hkeys, Fault.lift]
  refine ⟨found.toList.map Prod.snd, ?_, .of_found hg hfound⟩
  refine except_bind_eq_ok_iff.mpr ⟨found, by rw [hsearch, Fault.lift], ?_⟩
  simp only [hnonempty, Bool.false_eq_true, if_false, ← hplan]
  exact except_bind_eq_ok_iff.mpr
    ⟨found.keys, horder, congrArg Except.ok found.filterMap_find?_keys⟩

/-- Without seeds there is nothing to be written. -/
theorem sortedAncestors_of_nil (g : Graph) : g.sortedAncestors [] = .error .emptyGraph := by
  have hsearch : g.ancestors [] = .ok ∅ := by
    rw [ancestors]
    cases g.nodes.size <;> rfl
  rw [sortedAncestors, hsearch]
  rfl

/-- Nodes that are found are those behind the seeds, and there is a seed. -/
lemma ordered_of_sortedAncestors (hg : g.WellFormed) (hseeds : ∀ s ∈ seeds, s < g.nodes.size)
    {nodes : List Node} (h : g.sortedAncestors seeds = .ok nodes) :
    seeds ≠ [] ∧ g.Ordered seeds nodes := by
  have hsome : seeds ≠ [] := by
    rintro rfl
    simp [sortedAncestors_of_nil] at h
  obtain ⟨found, hfound, ho⟩ := sortedAncestors_eq_ok hg hseeds hsome
  obtain rfl : nodes = found := Except.ok.inj (h.symm.trans hfound)
  exact ⟨hsome, ho⟩

end Graph

end MediaGraph
