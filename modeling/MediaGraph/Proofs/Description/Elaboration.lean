import Mathlib.Data.List.Forall2
import MediaGraph.Proofs.Description.Construction
import MediaGraph.Proofs.Session

/-!
# What is built is what is described

A description that is built adds its nodes in its own order behind those of the graph, each with the
inputs that its references mean. Pads are asked for by being referred to and by being listed, and it
does not matter how often and in which order: the graph knows just these pads afterwards, with the
labels that they are listed under.

## Main definitions

* `MediaGraph.Description.Elaborates` — what a graph becomes by a description, and the streams that
  the description ends in.

## Main results

* `MediaGraph.Client.elaborates_of_build` — a description that is built is elaborated.
-/

set_option autoImplicit false

namespace MediaGraph

namespace Description

/-- Whether a graph has become another by a description and nothing else, and these are the streams
that the description ends in. -/
structure Elaborates (d : Description) (g g' : Graph) (ss : List Stream) : Prop where
  /-- It is the same graph. -/
  id : g'.id = g.id
  /-- A reference means one endpoint. -/
  unique : ∀ {r e e'}, d.Means g.nodes.size r e → d.Means g.nodes.size r e' → e = e'
  /-- One node is added for each entry. -/
  size : g'.nodes.size = g.nodes.size + d.nodes.length
  /-- The nodes of the graph stay. -/
  kept : ∀ {i}, i < g.nodes.size → g'.node? i = g.node? i
  /-- Each entry becomes a node, in the order of the description. The number of its inputs is fixed
  if the entry fixes it. -/
  built : ∀ {k n}, d.nodes[k]? = some n → ∃ inputs arity,
    List.Forall₂ (d.Means g.nodes.size) n.inputs inputs ∧
    (∀ count, n.arity = some count → arity = .exact count) ∧ (n.arity = none → arity = .any) ∧
    g'.node? (g.nodes.size + k) =
      some ⟨g.nodes.size + k, n.filter, inputs, arity, ⟨n.args, n.options⟩⟩
  /-- The streams come from where the references mean, and may feed filters. -/
  terminals : List.Forall₂
    (fun r s => ∃ e, d.Means g.nodes.size r e ∧ s = ⟨g.id, e, .filterable⟩) d.outputs ss
  /-- A pad is asked for if it was before, if a reference means it or if it is listed. -/
  asked : ∀ {p}, (∃ label, g'.pads.find? p = some label) ↔
    (∃ label, g.pads.find? p = some label) ∨
      (∃ r ∈ d.references, d.Means g.nodes.size r (.pad p)) ∨
      ∃ text, d.Lists g.nodes.size p text
  /-- A pad has a label if it had it before or if it is listed under it. -/
  labelled : ∀ {p l}, g'.pads.find? p = some (some l) ↔
    g.pads.find? p = some (some l) ∨ d.Lists g.nodes.size p (some l.text)
  /-- A pad of the graph keeps its label, or stays without one. -/
  keptPads : ∀ {p label}, g.pads.find? p = some label → g'.pads.find? p = some label
  /-- A label names what it named before, its source, or the pad that is listed under it. -/
  named : ∀ {l e}, g'.owners.find? l = some e ↔ g.owners.find? l = some e ∨
    (l ∈ d.sources ∧ e = .external l) ∨
    ∃ p, d.Lists g.nodes.size p (some l.text) ∧ e = .pad p

variable {d : Description} {g : Graph} {first : Nat}

/-- References that are in order mean endpoints, one for each. -/
lemma forall₂_means (hd : d.WellNamed) {rs : List String}
    (hrs : ∀ r ∈ rs, Refers d.sources d.nodes r) :
    List.Forall₂ (d.Means first) rs (rs.map (d.endpoint first)) := by
  rw [List.forall₂_map_right_iff, List.forall₂_same]
  exact fun r hr => means_endpoint hd (hrs r hr)

lemma Refers.mono {sources : List Label} {before nodes : List NodeEntry} {r : String}
    (hr : Refers sources before r) (hsub : before ⊆ nodes) : Refers sources nodes r := by
  refine hr.imp_right ?_
  rintro ⟨ref, names, n, hn, hid⟩
  exact ⟨ref, names, n, hsub hn, hid⟩

lemma WellNamed.refers_input (hd : d.WellNamed) {n : NodeEntry} (hn : n ∈ d.nodes) {r : String}
    (hr : r ∈ n.inputs) : Refers d.sources d.nodes r := by
  obtain ⟨before, after, hsplit⟩ := List.append_of_mem hn
  exact (hd.inputs before n after hsplit r hr).mono (by simp [hsplit])

lemma WellNamed.refers (hd : d.WellNamed) {r : String} (hr : r ∈ d.references) :
    Refers d.sources d.nodes r := by
  rcases List.mem_append.mp hr with hr | hr
  · obtain ⟨n, hn, hr⟩ := List.mem_flatMap.mp hr
    exact hd.refers_input hn hr
  · exact hd.outputs r hr

/-- What a description leads to on a graph with labels and pads that name each other. -/
lemma elaborates_of_grantsAll (hd : d.WellNamed) (hg : g.Paired)
    (hgrants : g.GrantsAll (d.requests g.nodes.size)) :
    d.Elaborates g
      ((g.servedAll (d.requests g.nodes.size)).append
        (d.allBuilt g.nodes.size d.nodes g.nodes.size))
      (d.outputs.map (d.stream g.nodes.size g.id)) := by
  have hrecords := Graph.records_servedAll hg hgrants
  constructor
  case id => simp
  case unique => exact fun h h' => (h.eq_endpoint hd).trans (h'.eq_endpoint hd).symm
  case size => simp [allBuilt]
  case kept =>
    intro i hi
    simp [Graph.append, Graph.node?, Array.getElem?_append, hi]
  case built =>
    intro k n hn
    have hmem : n ∈ d.nodes := List.mem_of_getElem? hn
    refine ⟨n.inputs.map (d.endpoint g.nodes.size), n.requiredArity,
      forall₂_means hd fun r hr => hd.refers_input hmem hr, ?_, ?_, ?_⟩
    · intro count hcount
      rw [NodeEntry.requiredArity, hcount]
    · intro hfree
      rw [NodeEntry.requiredArity, hfree]
    · simp [Graph.append, Graph.node?, Array.getElem?_append, allBuilt, built, hn]
  case terminals =>
    rw [List.forall₂_map_right_iff, List.forall₂_same]
    exact fun r hr => ⟨_, means_endpoint hd (hd.outputs r hr), rfl⟩
  case asked =>
    intro p
    rw [Graph.append_pads, hrecords.asked]
    refine or_congr_right ?_
    simp only [pad_mem_requests_iff, exists_or, exists_eq_left]
    refine or_congr_left (exists_congr fun r => and_congr_right fun hr => ?_)
    constructor
    · intro h
      rw [← h]
      exact means_endpoint hd (hd.refers hr)
    · exact fun h => (h.eq_endpoint hd).symm
  case labelled =>
    intro p l
    rw [Graph.append_pads, hrecords.labelled]
    simp [pad_mem_requests_iff]
  case keptPads => exact fun h => hrecords.kept _ _ h
  case named =>
    intro l e
    rw [Graph.append_owners, hrecords.named]
    refine or_congr_right ?_
    constructor
    · rintro ⟨q, hq, ⟨rfl, he⟩ | ⟨p, rfl, he⟩⟩
      · obtain ⟨m, hm, htext⟩ := source_mem_requests_iff.mp hq
        obtain rfl := Label.text_injective htext
        exact .inl ⟨hm, he⟩
      · refine .inr ⟨p, ?_, he⟩
        simpa [pad_mem_requests_iff] using hq
    · rintro (⟨hl, he⟩ | ⟨p, hp, he⟩)
      · exact ⟨_, source_mem_requests_iff.mpr ⟨l, hl, rfl⟩, .inl ⟨rfl, he⟩⟩
      · exact ⟨_, pad_mem_requests_iff.mpr (.inr hp), .inr ⟨p, rfl, he⟩⟩

/-- A description that is built passed the check. -/
lemma wellNamed_of_run_eq_ok {dr dr' : Draft} {ss : List Stream}
    (h : d.build.run dr = .ok ss dr') : d.WellNamed := by
  rw [← validate_eq_ok_iff]
  change (Edit.check d.validate >>= _).run dr = _ at h
  cases hcheck : d.validate with
  | ok => rfl
  | error e =>
    rw [hcheck] at h
    cases h

/-- A description that is built on a well-formed graph is elaborated. -/
theorem elaborates_of_run_eq_ok (hg : g.WellFormed) {events : Array Event} {dr : Draft}
    {ss : List Stream} (h : d.build.run ⟨g, events⟩ = .ok ss dr) :
    d.Elaborates g dr.graph ss := by
  have hd := wellNamed_of_run_eq_ok h
  obtain ⟨⟨hgrants, -⟩, rfl, hgraph⟩ := (build_gives hd).of_run_eq_ok h
  rw [hgraph]
  exact elaborates_of_grantsAll hd (fun _ _ => hg.owner_pad) hgrants

end Description

namespace Client

variable {c : Client}

/-- A description that was answered was built, and the graph is what became of it. -/
lemma run_of_answer_build {i : Nat} {d : Description} {ss : List Stream}
    (h : c.answer (.build i d) = .ok (.streams ss)) :
    ∃ dr, d.build.run ⟨c.session.graph i, #[]⟩ = .ok ss dr ∧
      (c.after (.build i d)).session.graph i = dr.graph := by
  have hperform : c.session.perform (.build i d) =
      match d.build.run ⟨c.session.graph i, #[]⟩ with
      | .ok ss dr => (.ok (.streams ss), c.session.update i dr)
      | .error e dr => (.error e, c.session.update i dr) := by
    have htarget : (Call.build i d).target = i := rfl
    rw [Session.perform, Edit.ofCall, htarget, map_eq_pure_bind, EStateM.run_bind]
    cases d.build.run ⟨c.session.graph i, #[]⟩ <;> rfl
  have hafter : (c.after (.build i d)).session = (c.session.perform (.build i d)).2 := by
    rw [after, h]
  rw [answer, hperform] at h
  rw [hafter, hperform]
  cases hrun : d.build.run ⟨c.session.graph i, #[]⟩ with
  | ok ss' dr =>
    rw [hrun] at h
    obtain rfl : ss' = ss := by simpa using h
    exact ⟨dr, rfl, by simp [Session.update]⟩
  | error e dr =>
    rw [hrun] at h
    cases h

/-- **What is built is what is described.** One node is added for each entry, in the order of the
description, with the filter, the arguments and the arity of the entry and with the inputs that its
references mean; the streams that are answered are those that the description ends in. The pads
that the graph was asked for are those of before, those that references mean and those that are
listed; a pad has a label exactly if it is listed under it, or had it before; and no label names
anything new but a source or such a pad.

**Proof sketch.** The names and references are in order, or the description would have been refused
at the start. So it is settled beforehand what each reference means, and building is a row of
requests with nodes between them (`Description.build_gives`). What requests leave behind depends
only on which they are (`Graph.records_servedAll`). -/
theorem elaborates_of_build (hc : c.Reachable) {i : Nat} {d : Description} {ss : List Stream}
    (h : c.answer (.build i d) = .ok (.streams ss)) :
    d.Elaborates (c.session.graph i) ((c.after (.build i d)).session.graph i) ss := by
  obtain ⟨dr, hrun, hgraph⟩ := run_of_answer_build h
  rw [hgraph]
  exact Description.elaborates_of_run_eq_ok (hc.sound.wellFormed i) hrun

/-- A copy of the picture laid over another one, which is asked for under a label. The other copies
are asked for by references, one of them twice. -/
def layeredDescription : Description :=
  ⟨[⟨"0:v", Label.defect?_specifier⟩],
    [⟨"copies", "split", ["0:v"], some 1, [], ∅, [⟨1, some "side"⟩, ⟨1, none⟩]⟩,
      ⟨"layers", "overlay", ["copies:1", "copies"], none, [.text "10"],
        (∅ : SortedMap String Value).insert "y" (.text "20"), []⟩],
    ["layers", "copies:2", "copies:1", "0:v"]⟩

/-- The graph of the sample run after the description was built on it. -/
def layeredGraph : Graph :=
  ((start.run sampleCalls).after (.build 0 layeredDescription)).session.graph 0

/-- What was described stands behind the three nodes of the graph: a node that asks for one input,
and one that reads two inputs and would read any number. -/
theorem elaborates_layered :
    (start.run sampleCalls).Reachable ∧
    (layeredGraph.node? 3).map (fun n => (n.filter, n.inputs, n.arity)) =
      some ("split", [.external ⟨"0:v", by decide⟩], .exact 1) ∧
    (layeredGraph.node? 4).map (fun n => (n.filter, n.inputs, n.arity)) =
      some ("overlay", [.pad ⟨3, 1⟩, .pad ⟨3, 0⟩], .any) ∧
    ∃ ss, (start.run sampleCalls).answer (.build 0 layeredDescription) = .ok (.streams ss) ∧
      ss.map Stream.endpoint =
        [.pad ⟨4, 0⟩, .pad ⟨3, 2⟩, .pad ⟨3, 1⟩, .external ⟨"0:v", by decide⟩] ∧
      layeredDescription.Elaborates ((start.run sampleCalls).session.graph 0) layeredGraph ss := by
  have hrun := reachable_sample
  have hanswer : (start.run sampleCalls).answer (.build 0 layeredDescription) =
      .ok (.streams [⟨0, .pad ⟨4, 0⟩, .filterable⟩, ⟨0, .pad ⟨3, 2⟩, .filterable⟩,
        ⟨0, .pad ⟨3, 1⟩, .filterable⟩, ⟨0, .external ⟨"0:v", by decide⟩, .filterable⟩]) := by
    decide +kernel
  exact ⟨hrun, by decide +kernel, by decide +kernel, _, hanswer, rfl,
    elaborates_of_build hrun hanswer⟩

end Client

end MediaGraph
