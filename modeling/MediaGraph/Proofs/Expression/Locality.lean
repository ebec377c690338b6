import MediaGraph.Proofs.Expression.Compilation
import MediaGraph.Proofs.Session.Growth

/-!
# What a compilation depends on

A compilation looks at nothing but the nodes behind its terminals and the pads that these nodes
were asked for. Two graphs that agree on them compile to the same, and a graph that grows elsewhere
goes on to compile to what it did.

## Main definitions

* `MediaGraph.Graph.AgreesBehind` — two graphs agree on what is behind some nodes.

## Main results

* `MediaGraph.Graph.AgreesBehind.compile_eq` — graphs that agree behind the terminals compile to the
  same.
* `MediaGraph.Client.compile_eq_of_later` — calls that ask for no new pad behind the terminals leave
  a compilation as it is.
-/

set_option autoImplicit false

namespace MediaGraph

namespace Graph

variable {g g' : Graph} {seeds : List Nat}

/-! ## Graphs that agree behind some nodes -/

/-- Two graphs agree on what is behind some nodes: the nodes themselves and the pads that they were
asked for, with the labels of these. -/
structure AgreesBehind (g g' : Graph) (seeds : List Nat) : Prop where
  /-- The same nodes are behind the seeds. -/
  behind : ∀ i, g'.Behind seeds i ↔ g.Behind seeds i
  /-- These nodes are the same. -/
  node : ∀ i, g.Behind seeds i → g'.node? i = g.node? i
  /-- They were asked for the same pads. -/
  pads : ∀ p : Pad, g.Behind seeds p.node → g'.pads.find? p = g.pads.find? p

/-- In a graph that holds all of another, the nodes of that one read what they read there. -/
lemma Within.reads_iff (h : g.Within g') {id feeder : Nat} (hid : id < g.nodes.size) :
    g'.Reads id feeder ↔ g.Reads id feeder := by
  obtain ⟨n, hn, hn'⟩ := h.exists_node hid
  simp [Reads, hn, hn']

/-- Behind nodes of a graph there is nothing new in a graph that holds all of it.

**Proof sketch.** Induction on the path. It never leaves the nodes of the smaller graph, and these
read the same in both. -/
lemma Within.behind_iff (h : g.Within g') (hg : g.WellFormed)
    (hseeds : ∀ s ∈ seeds, s < g.nodes.size) {id : Nat} :
    g'.Behind seeds id ↔ g.Behind seeds id := by
  constructor
  · rintro ⟨s, hs, hpath⟩
    induction hpath with
    | refl => exact .of_mem hs
    | tail _ hread ih =>
      have hroom := hg.behind_lt hseeds ih
      exact ih.tail ((h.reads_iff hroom).mp hread)
  · rintro ⟨s, hs, hpath⟩
    induction hpath with
    | refl => exact .of_mem hs
    | tail hpath hread ih =>
      have hroom := hg.behind_lt hseeds ⟨s, hs, hpath⟩
      exact ih.tail ((h.reads_iff hroom).mpr hread)

/-- A graph that holds all of another agrees with it behind nodes of which no new pad was asked
for. -/
theorem Within.agreesBehind (h : g.Within g') (hg : g.WellFormed)
    (hseeds : ∀ s ∈ seeds, s < g.nodes.size)
    (hquiet : ∀ p : Pad, g.Behind seeds p.node → g.pads.find? p = none → g'.pads.find? p = none) :
    g.AgreesBehind g' seeds where
  behind _ := h.behind_iff hg hseeds
  node i hi := by
    obtain ⟨n, hn, hn'⟩ := h.exists_node (hg.behind_lt hseeds hi)
    rw [hn, hn']
  pads p hp := by
    cases hfind : g.pads.find? p with
    | none => exact hquiet p hp hfind
    | some label => exact h.pads hfind

/-- The pads that a node was asked for are settled by what look-ups find. -/
lemma requestedPads_eq {node : Nat}
    (h : ∀ i, g'.pads.find? ⟨node, i⟩ = g.pads.find? ⟨node, i⟩) :
    g'.requestedPads node = g.requestedPads node := by
  refine eq_of_ascending (pairwise_requestedPads g' node) (pairwise_requestedPads g node) ?_
  rintro ⟨i, label⟩
  rw [mem_requestedPads, mem_requestedPads, h]

end Graph

/-! ## What is read of a graph on the way -/

namespace Labelling

variable {g g' : Graph}

lemma assignNodes_eq {ids : List Nat}
    (h : ∀ id ∈ ids, g'.requestedPads id = g.requestedPads id) (supply : LabelSupply) :
    assignNodes g' ids supply = assignNodes g ids supply := by
  induction ids generalizing supply with
  | nil => rfl
  | cons id rest ih =>
    have hnode : assignNode g' id supply = assignNode g id supply := by
      rw [assignNode, assignNode, h id List.mem_cons_self]
    have hrest := ih fun a ha => h a (List.mem_cons_of_mem _ ha)
    simp only [assignNodes, hnode, hrest]

/-- An assignment reads only the pads that its nodes were asked for. -/
lemma assign_eq {nodes : List Node}
    (h : ∀ n ∈ nodes, g'.requestedPads n.id = g.requestedPads n.id) (terminals : List Endpoint)
    (settings : Settings) : assign g' nodes terminals settings = assign g nodes terminals settings := by
  have hused : usedLabels g' nodes terminals = usedLabels g nodes terminals := by
    rw [usedLabels, usedLabels]
    refine congrArg _ (List.flatMap_congr fun n hn => ?_)
    rw [h n hn]
  have hids : ∀ id ∈ nodes.map Node.id, g'.requestedPads id = g.requestedPads id := by
    simpa using h
  rw [assign, assign, supply, supply, hused, assignNodes_eq hids]

end Labelling

/-- So does the writing of nodes. -/
lemma Graph.write_eq {g g' : Graph} {nodes : List Node}
    (h : ∀ n ∈ nodes, g'.requestedPads n.id = g.requestedPads n.id) (terminals : List Endpoint)
    (settings : Settings) : g'.write nodes terminals settings = g.write nodes terminals settings := by
  rw [write, write, Labelling.assign_eq h]

namespace Graph.AgreesBehind

variable {g g' : Graph} {seeds : List Nat}

lemma ordered (h : g.AgreesBehind g' seeds) {nodes : List Node} (ho : g'.Ordered seeds nodes) :
    g.Ordered seeds nodes where
  mem_iff := by
    intro n
    rw [ho.mem_iff, h.behind]
    refine and_congr_right fun hn => ?_
    rw [h.node n.id hn]
  ascending := ho.ascending

/-- The nodes to be written are the same. -/
lemma sortedAncestors_eq (h : g.AgreesBehind g' seeds) (hg : g.WellFormed) (hg' : g'.WellFormed)
    (hseeds : ∀ s ∈ seeds, s < g.nodes.size) (hseeds' : ∀ s ∈ seeds, s < g'.nodes.size) :
    g'.sortedAncestors seeds = g.sortedAncestors seeds := by
  by_cases hnil : seeds = []
  · subst hnil
    rw [sortedAncestors_of_nil, sortedAncestors_of_nil]
  · obtain ⟨nodes, hnodes, ho⟩ := sortedAncestors_eq_ok hg hseeds hnil
    obtain ⟨nodes', hnodes', ho'⟩ := sortedAncestors_eq_ok hg' hseeds' hnil
    rw [hnodes, hnodes', ho.unique (h.ordered ho')]

/-- The pads that the nodes to be written were asked for are the same. -/
lemma requestedPads_eq (h : g.AgreesBehind g' seeds) {nodes : List Node}
    (ho : g.Ordered seeds nodes) :
    ∀ n ∈ nodes, g'.requestedPads n.id = g.requestedPads n.id := by
  intro n hn
  have hbehind := (ho.mem_iff.mp hn).1
  exact Graph.requestedPads_eq fun i => h.pads ⟨n.id, i⟩ hbehind

/-- **Graphs that agree behind the terminals compile to the same**, with the same labels and the
same reports, or are refused for the same reason.

**Proof sketch.** The nodes to be written are the same list in both, as it is settled by what is
behind the terminals. Labels are assigned from the pads that these nodes were asked for. -/
theorem compile_eq {terminals : List Stream} (hid : g'.id = g.id) (hg : g.WellFormed)
    (hg' : g'.WellFormed)
    (hterminals : ∀ t ∈ terminals, t.graph = g.id → g.Knows t.endpoint ∧ g'.Knows t.endpoint)
    (h : (∀ t ∈ terminals, t.graph = g.id) →
      g.AgreesBehind g' (Graph.seeds (terminals.map Stream.endpoint)))
    (settings : Settings) (events : Array Event) :
    (g'.compile terminals settings).run events = (g.compile terminals settings).run events := by
  have hcheck : g'.checkTerminals terminals = g.checkTerminals terminals := by
    rw [checkTerminals, checkTerminals, hid]
  rw [compile_run, compile_run, hcheck]
  cases settings.validate with
  | error e => rfl
  | ok =>
    cases hown : g.checkTerminals terminals with
    | error e => rfl
    | ok =>
      obtain ⟨-, hall⟩ := checkTerminals_eq_ok_iff.mp hown
      have hknown : ∀ e ∈ terminals.map Stream.endpoint, g.Knows e ∧ g'.Knows e := by
        rw [List.forall_mem_map]
        exact fun t ht => hterminals t ht (hall t ht)
      have hseeds := seeds_lt hg fun e he => (hknown e he).1
      have hseeds' := seeds_lt hg' fun e he => (hknown e he).2
      have hagree := h hall
      rw [hagree.sortedAncestors_eq hg hg' hseeds hseeds']
      cases hnodes : g.sortedAncestors (Graph.seeds (terminals.map Stream.endpoint)) with
      | error e => rfl
      | ok nodes =>
        have ho := (ordered_of_sortedAncestors hg hseeds hnodes).2
        simp only [write_eq (hagree.requestedPads_eq ho)]

end Graph.AgreesBehind

namespace Client

variable {c c' : Client} {i : Nat} {terminals : List Stream} {settings : Settings}

/-- **A compilation goes on to answer what it did** — the same expression, or the same reason for a
refusal — whatever calls are made in between, as long as no pad of a node behind the terminals is
asked for that was not asked for before. Other pads may be asked for and named, also by labels that
look like assigned ones, other nodes may read what is behind the terminals, and calls may be refused.

**Proof sketch.** The graph at the later time holds all of the graph at the earlier one
(`Client.Later.grows`), so it agrees with it behind the terminals (`Graph.Within.agreesBehind`), and
graphs that agree there compile to the same (`Graph.AgreesBehind.compile_eq`). -/
theorem compile_eq_of_later (hc : c.Reachable) (hholds : c.Holds (.compile i terminals settings))
    (hlater : c.Later c')
    (hquiet : ∀ p : Pad,
      (c.session.graph i).Behind (Graph.seeds (terminals.map Stream.endpoint)) p.node →
      (c.session.graph i).pads.find? p = none → (c'.session.graph i).pads.find? p = none) :
    c'.answer (.compile i terminals settings) = c.answer (.compile i terminals settings) := by
  have hsound := hc.sound
  have hsound' := hlater.sound hsound
  have hin := (hlater.grows hsound i).within
  have hg := hsound.wellFormed i
  have hknows := hsound.knows_terminal hholds
  have hagree : (∀ t ∈ terminals, t.graph = (c.session.graph i).id) →
      (c.session.graph i).AgreesBehind (c'.session.graph i)
        (Graph.seeds (terminals.map Stream.endpoint)) := by
    intro hown
    refine hin.agreesBehind hg (Graph.seeds_lt hg ?_) hquiet
    rw [List.forall_mem_map]
    exact fun t ht => hknows t ht (hown t ht)
  rw [answer_compile, answer_compile,
    Graph.AgreesBehind.compile_eq hin.id hg (hsound'.wellFormed i) ?_ hagree]
  exact fun t ht hsame => ⟨hknows t ht hsame, hin.knows (hknows t ht hsame)⟩

/-- Calls that ask for nothing new behind the terminals of the sample run. The scaled picture is
read again and a description is built, both under labels that the compilation assigns itself; a pad
is asked for again, and once more under a label, which is refused. -/
def elsewhereCalls : List Call :=
  [.apply ⟨0, .pad ⟨1, 0⟩, .filterable⟩ "blur" [Arguments.empty.set "label" (.text "l3")],
    .build 0 ⟨[], [⟨"a", "color", [], none, [], ∅, [⟨0, some "l2"⟩]⟩], ["a"]⟩,
    .output ⟨0, 0⟩ none (some 1), .output ⟨0, 0⟩ (some "late") none]

/-- The sample run still compiles to what it did. -/
theorem compile_eq_elsewhere :
    (start.run sampleCalls).Reachable ∧
    (start.run sampleCalls).Holds (.compile 0 sampleTerminals {}) ∧
    (start.run sampleCalls).Later ((start.run sampleCalls).run elsewhereCalls) ∧
    (((start.run sampleCalls).run elsewhereCalls).session.graph 0).nodes.size = 5 ∧
    ((start.run sampleCalls).run elsewhereCalls).answer (.compile 0 sampleTerminals {}) =
      .ok (.expression sampleExpression) := by
  have hrun := reachable_sample
  have hholds := holds_sample {}
  have hlater : (start.run sampleCalls).Later ((start.run sampleCalls).run elsewhereCalls) :=
    later_run (by decide +kernel)
  have hknown : ∀ e ∈ sampleTerminals.map Stream.endpoint,
      ((start.run sampleCalls).session.graph 0).Knows e := by
    rw [List.forall_mem_map]
    exact fun t ht => hrun.sound.knows_terminal hholds t ht (by revert t; decide +kernel)
  -- the pads of the three nodes of the sample run are those that were asked for there
  have hpads : ∀ e ∈ (((start.run sampleCalls).run elsewhereCalls).session.graph 0).pads.toList,
      e.1.node < ((start.run sampleCalls).session.graph 0).nodes.size →
      (((start.run sampleCalls).session.graph 0).pads.find? e.1).isSome := by
    decide +kernel
  have hanswer := compile_eq_of_later hrun hholds hlater fun p hp hnone => by
    have hlt := (hrun.sound.wellFormed 0).behind_lt
      (Graph.seeds_lt (hrun.sound.wellFormed 0) hknown) hp
    cases hfind : (((start.run sampleCalls).run elsewhereCalls).session.graph 0).pads.find? p with
    | none => rfl
    | some label =>
      have := hpads _ (SortedMap.mem_toList_iff _ |>.mpr hfind) hlt
      simp [hnone] at this
  refine ⟨hrun, hholds, hlater, by decide +kernel, hanswer.trans ?_⟩
  decide +kernel

end Client

end MediaGraph
