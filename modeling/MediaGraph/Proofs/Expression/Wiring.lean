import MediaGraph.Proofs.Expression.Compilation

/-!
# The wiring of an expression

In an expression labels stand for endpoints: nodes are wired by reading labels that other nodes
produce. No label stands for two endpoints, so a label that is read from a pad is produced in one
place, in front of where it is read, and a label from outside is produced nowhere.

## Main definitions

* `MediaGraph.Expression.Touches` — the endpoints that are read, produced or returned.
* `MediaGraph.Expression.Produces` — where a label is produced.
* `MediaGraph.Expression.Wired` — labels stand for endpoints, each for one.

## Main results

* `MediaGraph.Client.wired_of_compile` — every expression that a client can compile is wired.
-/

set_option autoImplicit false

namespace MediaGraph

namespace Expression

/-- The endpoints of an expression: what its nodes read and produce, and its terminals. -/
def Touches (chains : List Chain) (terminals : List Endpoint) : Set Endpoint :=
  {e | (∃ c ∈ chains, e ∈ c.node.inputs) ∨
    (∃ c ∈ chains, ∃ q < c.outputs.length, e = .pad ⟨c.node.id, q⟩) ∨ e ∈ terminals}

/-- Whether the label `l` is produced by the node at place `k`, as its output `q`. -/
def Produces (chains : List Chain) (k q : Nat) (l : Label) : Prop :=
  ∃ c, chains[k]? = some c ∧ c.outputs[q]? = some l

/-- The labels in an expression of some nodes and terminals stand for endpoints, each for one. -/
structure Wired (g : Graph) (terminals : List Endpoint) (chains : List Chain) (e : Expression)
    (label : Endpoint → Label) : Prop where
  /-- The nodes are nodes of the graph. -/
  nodes : ∀ c ∈ chains, g.node? c.node.id = some c.node
  /-- Each is written once, by ascending number. -/
  ascending : chains.Pairwise fun c d => c.node.id < d.node.id
  /-- The labels that a node reads are those of its inputs. -/
  inputs : ∀ c ∈ chains, c.inputs = c.node.inputs.map label
  /-- The labels that a node produces are those of its pads, by position. -/
  outputs : ∀ c ∈ chains, ∀ q l, c.outputs[q]? = some l → l = label (.pad ⟨c.node.id, q⟩)
  /-- The labels of the terminals are returned. -/
  returned : e.outputs = terminals.map label
  /-- An endpoint outside has its own label. -/
  external : ∀ l, label (.external l) = l
  /-- A pad that was asked for under a label has it. -/
  named : ∀ p l, g.pads.find? p = some (some l) → label (.pad p) = l
  /-- No label stands for two endpoints. -/
  injective : Set.InjOn label (Touches chains terminals)
  /-- The label of a pad is produced in one place: by its node, at its position. -/
  producer : ∀ p, .pad p ∈ Touches chains terminals → ∃ k,
    Produces chains k p.index (label (.pad p)) ∧
    ∀ k' q, Produces chains k' q (label (.pad p)) → k' = k ∧ q = p.index
  /-- What a node reads is produced before it. -/
  earlier : ∀ j c p k q, chains[j]? = some c → .pad p ∈ c.node.inputs →
    Produces chains k q (label (.pad p)) → k < j
  /-- The label of an endpoint outside is not produced. -/
  unproduced : ∀ l, .external l ∈ Touches chains terminals → ∀ k q, ¬ Produces chains k q l

end Expression

namespace Graph

open Expression

variable {g : Graph} {nodes : List Node} {terminals : List Endpoint} {settings : Settings}
  {labelling : Labelling}

/-- A label is produced where the node of its pad is written, at the position of the pad. -/
lemma produces_iff {k q : Nat} {l : Label} :
    Produces (nodes.map (g.chain labelling)) k q l ↔
      ∃ n, nodes[k]? = some n ∧ labelling.labelOf (.pad ⟨n.id, q⟩) = .ok l := by
  simp only [Produces, List.getElem?_map, Option.map_eq_some_iff,
    Labelling.labelOf_pad_eq_ok_iff]
  constructor
  · rintro ⟨_, ⟨n, hn, rfl⟩, hl⟩
    exact ⟨n, hn, hl⟩
  · rintro ⟨n, hn, hl⟩
    exact ⟨_, ⟨n, hn, rfl⟩, hl⟩

/-- An endpoint outside in an expression is read or is a terminal. -/
lemma external_mem_touches_iff {l : Label} :
    .external l ∈ Touches (nodes.map (g.chain labelling)) terminals ↔
      (∃ n ∈ nodes, .external l ∈ n.inputs) ∨ .external l ∈ terminals := by
  simp [Touches, chain]

/-- Every pad in an expression has its label in the labelling. -/
lemma labelOf_pad_of_mem_touches (hg : g.WellFormed) (hterminals : ∀ e ∈ terminals, g.Knows e)
    (ho : g.Ordered (seeds terminals) nodes) (h : labelling.Suits g nodes terminals settings)
    {p : Pad} (hp : .pad p ∈ Touches (nodes.map (g.chain labelling)) terminals) :
    labelling.labelOf (.pad p) = .ok (labelling.name g (.pad p)) := by
  rcases hp with ⟨c, hc, hread⟩ | ⟨c, hc, q, hq, heq⟩ | hterminal
  · obtain ⟨n, hn, rfl⟩ := List.mem_map.mp hc
    exact labelOf_eq_name hg hterminals ho h (.inl ⟨n, hn, hread⟩)
  · obtain ⟨n, hn, rfl⟩ := List.mem_map.mp hc
    obtain rfl := Endpoint.pad.inj heq
    have hl : labelling.labelOf (.pad ⟨n.id, q⟩) = .ok (labelling.outputs n.id)[q] :=
      Labelling.labelOf_pad_eq_ok_iff.mpr (List.getElem?_eq_getElem hq)
    exact hl.trans (congrArg Except.ok (Labelling.name_eq_of_ok hl).symm)
  · exact labelOf_eq_name hg hterminals ho h (.inr hterminal)

/-- A pad that was asked for under a label has it. -/
lemma name_of_named (ho : g.Ordered (seeds terminals) nodes)
    (h : labelling.Suits g nodes terminals settings) {p : Pad} {l : Label}
    (hp : g.pads.find? p = some (some l)) : labelling.name g (.pad p) = l := by
  have hnamed : g.labelOf? (.pad p) = some l := by rw [labelOf?, hp, Option.join_some]
  rw [Labelling.name]
  split
  · next m hm =>
    rcases h.named_or_fresh ho hm with hm | ⟨hnone, -⟩
    · exact Option.some.inj (hm.symm.trans hnamed)
    · simp [hnamed] at hnone
  · rw [hnamed, Option.getD_some]

/-- No label stands for two endpoints of an expression. -/
theorem injOn_name (hg : g.WellFormed) (hterminals : ∀ e ∈ terminals, g.Knows e)
    (ho : g.Ordered (seeds terminals) nodes) (h : labelling.Suits g nodes terminals settings) :
    Set.InjOn (labelling.name g) (Touches (nodes.map (g.chain labelling)) terminals) := by
  have hpad := fun p => labelOf_pad_of_mem_touches (p := p) hg hterminals ho h
  have hne : ∀ {p l}, .pad p ∈ Touches (nodes.map (g.chain labelling)) terminals →
      .external l ∈ Touches (nodes.map (g.chain labelling)) terminals →
      labelling.name g (.pad p) ≠ l := fun hp hl =>
    h.ne_external hg ho hterminals (hpad _ hp) (external_mem_touches_iff.mp hl)
  rintro (l | p) he (m | q) he' hsame
  · rw [Labelling.name_external, Labelling.name_external] at hsame
    rw [hsame]
  · exact absurd hsame.symm (hne he' he)
  · exact absurd hsame (hne he he')
  · rw [h.injective hg ho (hpad p he) (hsame ▸ hpad q he')]

/-- Where the label of a pad is produced, the node of the pad is written. -/
lemma place_of_produces (hg : g.WellFormed) (ho : g.Ordered (seeds terminals) nodes)
    (h : labelling.Suits g nodes terminals settings) {p : Pad} {k q : Nat}
    (hp : labelling.labelOf (.pad p) = .ok (labelling.name g (.pad p)))
    (hproduced : Produces (nodes.map (g.chain labelling)) k q (labelling.name g (.pad p))) :
    ∃ n, nodes[k]? = some n ∧ p = ⟨n.id, q⟩ := by
  obtain ⟨n, hn, hl⟩ := produces_iff.mp hproduced
  exact ⟨n, hn, h.injective hg ho hp hl⟩

/-- The label of a pad of an expression is produced in one place. -/
theorem exists_producer (hg : g.WellFormed) (hterminals : ∀ e ∈ terminals, g.Knows e)
    (ho : g.Ordered (seeds terminals) nodes) (h : labelling.Suits g nodes terminals settings)
    {p : Pad} (hp : .pad p ∈ Touches (nodes.map (g.chain labelling)) terminals) :
    ∃ k, Produces (nodes.map (g.chain labelling)) k p.index (labelling.name g (.pad p)) ∧
      ∀ k' q, Produces (nodes.map (g.chain labelling)) k' q (labelling.name g (.pad p)) →
        k' = k ∧ q = p.index := by
  have hl := labelOf_pad_of_mem_touches hg hterminals ho h hp
  obtain ⟨n, hn, hid⟩ := List.mem_map.mp (Labelling.mem_padsOf.mp (h.mem_padsOf ho hl)).1
  obtain ⟨k, hk⟩ := List.mem_iff_getElem?.mp hn
  refine ⟨k, produces_iff.mpr ⟨n, hk, by rw [hid]; exact hl⟩, fun k' q hproduced => ?_⟩
  obtain ⟨m, hk', rfl⟩ := place_of_produces hg ho h hl hproduced
  have hsame : n.id = m.id := hid
  have hlt := ho.id_lt_iff hk hk'
  have hgt := ho.id_lt_iff hk' hk
  exact ⟨by omega, rfl⟩

/-- What a node of an expression reads from a pad is produced before it. -/
theorem producer_lt (hg : g.WellFormed) (hterminals : ∀ e ∈ terminals, g.Knows e)
    (ho : g.Ordered (seeds terminals) nodes) (h : labelling.Suits g nodes terminals settings)
    {p : Pad} {m : Node} {j k q : Nat} (hm : nodes[j]? = some m) (hread : .pad p ∈ m.inputs)
    (hproduced : Produces (nodes.map (g.chain labelling)) k q (labelling.name g (.pad p))) :
    k < j := by
  have hmem := List.mem_of_getElem? hm
  have hl := labelOf_eq_name hg hterminals ho h (.inl ⟨m, hmem, hread⟩)
  obtain ⟨n, hn, rfl⟩ := place_of_produces hg ho h hl hproduced
  exact (ho.id_lt_iff hn hm).mp (ho.reads hg (seeds_lt hg hterminals) hmem hread).1

/-- The expression of nodes and terminals with a labelling of theirs is wired.

**Proof sketch.** All labels come from one labelling, in which no two pads have the same label and
no pad has the label of an endpoint outside that occurs. So the place where a label is produced
settles the pad, and the pad settles the place. -/
theorem wired_expression (hg : g.WellFormed) (hterminals : ∀ e ∈ terminals, g.Knows e)
    (ho : g.Ordered (seeds terminals) nodes) (h : labelling.Suits g nodes terminals settings) :
    Wired g terminals (nodes.map (g.chain labelling))
      (g.expression labelling nodes terminals settings) (labelling.name g) where
  nodes := by
    simp only [List.forall_mem_map]
    exact fun n hn => (ho.mem_iff.mp hn).2
  ascending := List.pairwise_map.mpr ho.ascending
  inputs := by
    simp only [List.forall_mem_map]
    exact fun n _ => rfl
  outputs := by
    simp only [List.forall_mem_map]
    intro n _ q l hl
    have hl : labelling.labelOf (.pad ⟨n.id, q⟩) = .ok l := Labelling.labelOf_pad_eq_ok_iff.mpr hl
    exact (Labelling.name_eq_of_ok hl).symm
  returned := rfl
  external _ := rfl
  named _ _ hp := name_of_named ho h hp
  injective := injOn_name hg hterminals ho h
  producer _ hp := exists_producer hg hterminals ho h hp
  earlier := by
    intro j c p k q hj hread hproduced
    rw [List.getElem?_map, Option.map_eq_some_iff] at hj
    obtain ⟨m, hm, rfl⟩ := hj
    exact producer_lt hg hterminals ho h hm hread hproduced
  unproduced := by
    intro l hl k q hproduced
    obtain ⟨n, -, hl'⟩ := produces_iff.mp hproduced
    exact h.ne_external hg ho hterminals hl' (external_mem_touches_iff.mp hl) rfl

end Graph

namespace Client

variable {c : Client} {i : Nat} {terminals : List Stream} {settings : Settings}

/-- **Every expression that a client can compile is wired**: its text is that of a list of nodes
laid out one after the other, whose labels, and those that are returned, stand for endpoints, each
label for one.

**Proof sketch.** The client's graphs are well formed and know its streams
(`Client.Reachable.sound`), so the expression is that of a labelling of all nodes behind the
terminals (`Client.Sound.compile_eq_ok`), and such an expression is wired
(`Graph.wired_expression`). -/
theorem wired_of_compile (hc : c.Reachable) (hholds : c.Holds (.compile i terminals settings))
    {e : Expression} (h : c.answer (.compile i terminals settings) = .ok (.expression e)) :
    ∃ (chains : List Expression.Chain) (label : Endpoint → Label),
      Expression.LaidOut settings.escape chains e.text ∧
      e.nodeCount = chains.length ∧
      Expression.Wired (c.session.graph i) (terminals.map Stream.endpoint) chains e label := by
  have hsound := hc.sound
  obtain ⟨nodes, labelling, -, hknown, ho, hsuits, rfl⟩ := hsound.compile_eq_ok hholds h
  refine ⟨nodes.map ((c.session.graph i).chain labelling),
    labelling.name (c.session.graph i), Graph.expression_laidOut .., ?_, ?_⟩
  · rw [Graph.expression, List.length_map]
  · exact Graph.wired_expression (hsound.wellFormed i) hknown ho hsuits

/-- The sample run compiles to a wired expression, with escaping and without it. -/
theorem wired_sample :
    (start.run sampleCalls).Reachable ∧
    (start.run sampleCalls).Holds (.compile 0 sampleTerminals {}) ∧
    (start.run sampleCalls).answer (.compile 0 sampleTerminals {}) =
      .ok (.expression sampleExpression) ∧
    (∃ (chains : List Expression.Chain) (label : Endpoint → Label),
      Expression.LaidOut true chains sampleExpression.text ∧
      sampleExpression.nodeCount = chains.length ∧
      Expression.Wired ((start.run sampleCalls).session.graph 0)
        (sampleTerminals.map Stream.endpoint) chains sampleExpression label) ∧
    (start.run sampleCalls).answer (.compile 0 sampleTerminals ⟨"l", 1, false⟩) =
      .ok (.expression plainSampleExpression) ∧
    ∃ (chains : List Expression.Chain) (label : Endpoint → Label),
      Expression.LaidOut false chains plainSampleExpression.text ∧
      plainSampleExpression.nodeCount = chains.length ∧
      Expression.Wired ((start.run sampleCalls).session.graph 0)
        (sampleTerminals.map Stream.endpoint) chains plainSampleExpression label := by
  have hrun := reachable_sample
  have hplain : (start.run sampleCalls).answer (.compile 0 sampleTerminals ⟨"l", 1, false⟩) =
      .ok (.expression plainSampleExpression) := by
    decide +kernel
  exact ⟨hrun, holds_sample {}, answer_sample,
    wired_of_compile hrun (holds_sample {}) answer_sample, hplain,
    wired_of_compile hrun (holds_sample _) hplain⟩

end Client

end MediaGraph
