import MediaGraph.Proofs.Expression.Compilation

/-!
# An expression lists the nodes behind its terminals

Whatever the shape of a graph — copies that meet again, a pad that a node reads twice, terminals
behind other terminals, the same terminal twice — the nodes of an expression are those behind its
terminals and no others, each in one place, and they stand in the order of their construction.

## Main definitions

* `MediaGraph.Expression.Lists` — the nodes of an expression are those behind some seeds.

## Main results

* `MediaGraph.Graph.Ordered.eq_filter` — the nodes behind some seeds, picked from those of the graph.
* `MediaGraph.Client.lists_of_compile` — every expression that a client can compile lists the nodes
  behind its terminals.
-/

set_option autoImplicit false

namespace MediaGraph

namespace Expression

/-- Whether the node with the number `id` is written at place `k`. -/
def Stands (chains : List Chain) (k id : Nat) : Prop :=
  ∃ c, chains[k]? = some c ∧ c.node.id = id

open Classical in
/-- The nodes of an expression are those behind some seeds, by the order of their construction. -/
structure Lists (g : Graph) (seeds : List Nat) (chains : List Chain) : Prop where
  /-- From the nodes of the graph, in their order, those behind the seeds are picked. -/
  picked : chains.map Chain.node = g.nodes.toList.filter fun n => g.Behind seeds n.id
  /-- Only nodes behind the seeds are written, as they are in the graph. -/
  only : ∀ c ∈ chains, g.Behind seeds c.node.id ∧ g.node? c.node.id = some c.node
  /-- Every node behind the seeds is written, in one place. -/
  once : ∀ id, g.Behind seeds id → ∃! k, Stands chains k id
  /-- Their numbers ascend. -/
  ascending : chains.Pairwise fun c d => c.node.id < d.node.id
  /-- There are as many as there are nodes behind the seeds. -/
  count : chains.length = {id | g.Behind seeds id}.ncard
  /-- What a node reads from is written before it. -/
  after : ∀ j c, chains[j]? = some c → ∀ a ∈ c.node.feeders,
    ∃ k < j, Stands chains k a

end Expression

namespace Graph

variable {g : Graph} {seeds : List Nat} {nodes : List Node}

/-- The numbers of the nodes of a graph ascend. -/
lemma WellFormed.pairwise_nodes (hg : g.WellFormed) :
    g.nodes.toList.Pairwise fun a b => a.id < b.id := by
  have hid : ∀ i (hi : i < g.nodes.toList.length), (g.nodes.toList[i]).id = i := by
    intro i hi
    apply hg.node_id
    simp [node?]
  rw [List.pairwise_iff_getElem]
  intro i j hi hj hij
  rw [hid i hi, hid j hj]
  exact hij

lemma WellFormed.mem_nodes_iff (hg : g.WellFormed) {n : Node} :
    n ∈ g.nodes.toList ↔ g.node? n.id = some n := by
  constructor
  · intro hn
    obtain ⟨i, hi⟩ := List.mem_iff_getElem?.mp hn
    have hi : g.node? i = some n := by simpa [node?] using hi
    rwa [hg.node_id hi]
  · intro hn
    exact List.mem_iff_getElem?.mpr ⟨n.id, by simpa [node?] using hn⟩

/-- Nodes stand where they stand in the list that is written. -/
lemma stands_iff {labelling : Labelling} {k id : Nat} :
    Expression.Stands (nodes.map (g.chain labelling)) k id ↔
      ∃ n, nodes[k]? = some n ∧ n.id = id := by
  simp only [Expression.Stands, List.getElem?_map, Option.map_eq_some_iff]
  constructor
  · rintro ⟨_, ⟨n, hn, rfl⟩, hid⟩
    exact ⟨n, hn, hid⟩
  · rintro ⟨n, hn, hid⟩
    exact ⟨_, ⟨n, hn, rfl⟩, hid⟩

namespace Ordered

open Classical in
/-- The nodes behind some seeds are picked from the nodes of the graph, in their order. -/
theorem eq_filter (h : g.Ordered seeds nodes) (hg : g.WellFormed) :
    nodes = g.nodes.toList.filter fun n => g.Behind seeds n.id := by
  refine eq_of_ascending h.ascending (hg.pairwise_nodes.filter _) fun n => ?_
  rw [List.mem_filter, hg.mem_nodes_iff, h.mem_iff, decide_eq_true_iff, and_comm]

lemma length_eq_ncard (h : g.Ordered seeds nodes) (hg : g.WellFormed)
    (hseeds : ∀ s ∈ seeds, s < g.nodes.size) :
    nodes.length = {id | g.Behind seeds id}.ncard := by
  rw [← List.length_map Node.id, ← ncard_setOf_mem h.nodup_ids]
  exact congrArg Set.ncard (Set.ext fun id => h.mem_ids_iff hg hseeds)

/-- A number stands in one place. -/
lemma place_unique (h : g.Ordered seeds nodes) {j k : Nat} {m n : Node}
    (hm : nodes[j]? = some m) (hn : nodes[k]? = some n) (hid : m.id = n.id) : j = k := by
  have hlt := h.id_lt_iff hm hn
  have hgt := h.id_lt_iff hn hm
  omega

/-- What a node reads from stands in front of it. -/
lemma exists_before (h : g.Ordered seeds nodes) (hg : g.WellFormed)
    (hseeds : ∀ s ∈ seeds, s < g.nodes.size) {j : Nat} {n : Node} (hn : nodes[j]? = some n)
    {a : Nat} (ha : a ∈ n.feeders) : ∃ k < j, ∃ m, nodes[k]? = some m ∧ m.id = a := by
  obtain ⟨p, hp, rfl⟩ := Node.mem_feeders_iff.mp ha
  obtain ⟨hlt, hmem⟩ := h.reads hg hseeds (List.mem_of_getElem? hn) hp
  obtain ⟨m, hm, hid⟩ := List.mem_map.mp hmem
  obtain ⟨k, hk⟩ := List.mem_iff_getElem?.mp hm
  rw [← hid] at hlt
  exact ⟨k, (h.id_lt_iff hk hn).mp hlt, m, hk, hid⟩

/-- The nodes behind some seeds, written in their order, list what is behind the seeds. -/
theorem lists (h : g.Ordered seeds nodes) (hg : g.WellFormed)
    (hseeds : ∀ s ∈ seeds, s < g.nodes.size) (labelling : Labelling) :
    Expression.Lists g seeds (nodes.map (g.chain labelling)) := by
  have hnode : (nodes.map (g.chain labelling)).map Expression.Chain.node = nodes := by
    rw [List.map_map]
    exact List.map_id nodes
  constructor
  case picked => rw [hnode, ← h.eq_filter hg]
  case only =>
    rw [List.forall_mem_map]
    exact fun n hn => h.mem_iff.mp hn
  case once =>
    intro id hid
    obtain ⟨n, hn, rfl⟩ := List.mem_map.mp ((h.mem_ids_iff hg hseeds).mpr hid)
    obtain ⟨k, hk⟩ := List.mem_iff_getElem?.mp hn
    refine ⟨k, stands_iff.mpr ⟨n, hk, rfl⟩, fun j hj => ?_⟩
    obtain ⟨m, hm, hid⟩ := stands_iff.mp hj
    exact h.place_unique hm hk hid
  case ascending => exact List.pairwise_map.mpr h.ascending
  case count => rw [List.length_map, h.length_eq_ncard hg hseeds]
  case after =>
    intro j c hc a ha
    rw [List.getElem?_map, Option.map_eq_some_iff] at hc
    obtain ⟨n, hn, rfl⟩ := hc
    obtain ⟨k, hk, hbefore⟩ := h.exists_before hg hseeds hn ha
    exact ⟨k, hk, stands_iff.mpr hbefore⟩

end Ordered

end Graph

namespace Client

variable {c : Client} {i : Nat} {terminals : List Stream} {settings : Settings}

/-- **Every expression that a client can compile lists the nodes behind its terminals**: its text is
that of these nodes, each once and in the order of their construction, and it counts them.

**Proof sketch.** The search finds exactly the nodes behind the terminals (`Graph.ancestors_eq_ok`).
They read only from nodes with smaller numbers, so along the whole run of the schedule the next node
is the smallest that is left (`Plan.Numbered.order_eq`). What is written is this list
(`Client.Sound.compile_eq_ok`). -/
theorem lists_of_compile (hc : c.Reachable) (hholds : c.Holds (.compile i terminals settings))
    {e : Expression} (h : c.answer (.compile i terminals settings) = .ok (.expression e)) :
    ∃ chains : List Expression.Chain,
      Expression.LaidOut settings.escape chains e.text ∧
      e.nodeCount = chains.length ∧
      Expression.Lists (c.session.graph i) (Graph.seeds (terminals.map Stream.endpoint))
        chains := by
  have hsound := hc.sound
  have hg := hsound.wellFormed i
  obtain ⟨nodes, labelling, -, hknown, ho, -, rfl⟩ := hsound.compile_eq_ok hholds h
  refine ⟨nodes.map ((c.session.graph i).chain labelling), Graph.expression_laidOut .., ?_, ?_⟩
  · rw [Graph.expression, List.length_map]
  · exact ho.lists hg (Graph.seeds_lt hg hknown) labelling

/-- A run with much sharing: a node reads one pad twice, and another that pad and what became of
it. A fourth node is read by nobody. -/
def sharingCalls : List Call :=
  let picture : Stream := ⟨0, .external ⟨"in", by decide⟩, .filterable⟩
  let out (node : Nat) : Stream := ⟨0, .pad ⟨node, 0⟩, .filterable⟩
  [.source 0 "in", .apply picture "null" [], .filter 0 [out 0, out 0] "hstack" [],
    .apply (out 0) "vflip" [], .filter 0 [out 1, out 0] "overlay" [], .sink (out 3)]

/-- Terminals of the run: the last node twice, and between that one of its ancestors. -/
def sharingTerminals : List Stream :=
  [⟨0, .pad ⟨3, 0⟩, .sinkOnly⟩, ⟨0, .pad ⟨1, 0⟩, .filterable⟩, ⟨0, .pad ⟨3, 0⟩, .filterable⟩]

/-- What these terminals compile to. -/
def sharingExpression : Expression :=
  ⟨"[in]null[l1];[l1][l1]hstack[l2];[l2][l1]overlay[l3]",
    [⟨"l3", by decide⟩, ⟨"l2", by decide⟩, ⟨"l3", by decide⟩], 3⟩

/-- Three nodes are listed. -/
theorem lists_sharing :
    (start.run sharingCalls).Reachable ∧
    (start.run sharingCalls).Holds (.compile 0 sharingTerminals {}) ∧
    (start.run sharingCalls).answer (.compile 0 sharingTerminals {}) =
      .ok (.expression sharingExpression) ∧
    ∃ chains : List Expression.Chain,
      Expression.LaidOut true chains sharingExpression.text ∧
      sharingExpression.nodeCount = chains.length ∧
      Expression.Lists ((start.run sharingCalls).session.graph 0) [3, 1, 3] chains := by
  have hrun : (start.run sharingCalls).Reachable :=
    Reachable.run (c := start) .refl (by decide +kernel)
  have hholds : (start.run sharingCalls).Holds (.compile 0 sharingTerminals {}) := by
    decide +kernel
  have hanswer : (start.run sharingCalls).answer (.compile 0 sharingTerminals {}) =
      .ok (.expression sharingExpression) := by
    decide +kernel
  exact ⟨hrun, hholds, hanswer, lists_of_compile hrun hholds hanswer⟩

end Client

end MediaGraph
