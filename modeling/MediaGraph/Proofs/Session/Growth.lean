import MediaGraph.Proofs.Session

/-!
# What later calls leave alone

A client never loses anything: graphs only grow, and what a stream or a handle shows of its graph
is settled when it is answered. That holds for calls of any kind, also for those that are refused
half-way.

## Main definitions

* `MediaGraph.Client.Later` — a client some calls later.

## Main results

* `MediaGraph.Client.Later.grows` — every graph grows along a run of calls.
* `MediaGraph.Client.kept_of_later` — all that is there stays, and streams and handles show what
  they showed.
-/

set_option autoImplicit false

namespace MediaGraph

namespace Graph.Within

variable {g g' : Graph}

/-- The label of a known endpoint does not change, nor does its having none. -/
theorem labelOf?_eq (h : g.Within g') {e : Endpoint} (he : g.Knows e) :
    g'.labelOf? e = g.labelOf? e := by
  cases e with
  | external l => rfl
  | pad p =>
    obtain ⟨label, hlabel⟩ := he
    have hkept : g'.pads.find? p = some label := h.pads hlabel
    rw [labelOf?, labelOf?, hlabel, hkept]

/-- A place that is taken keeps its node. -/
theorem exists_node (h : g.Within g') {i : Nat} (hi : i < g.nodes.size) :
    ∃ n, g.node? i = some n ∧ g'.node? i = some n := by
  have hn : g.node? i = some g.nodes[i] := Array.getElem?_eq_getElem hi
  exact ⟨_, hn, h.node? hn⟩

end Graph.Within

namespace Client

/-- Whether a client can get from one state to another by calls. -/
def Later (c c' : Client) : Prop := Relation.ReflTransGen Step c c'

variable {c c' : Client}

/-- A call takes away no stream and no handle. -/
lemma Step.suffix (h : Step c c') : c.streams <:+ c'.streams ∧ c.handles <:+ c'.handles := by
  cases h with
  | call call holds =>
    unfold after
    cases c.answer call with
    | ok a => exact ⟨List.suffix_append _ _, List.suffix_append _ _⟩
    | error e => exact ⟨List.suffix_rfl, List.suffix_rfl⟩

namespace Later

lemma sound (h : c.Later c') (hc : c.Sound) : c'.Sound := by
  induction h with
  | refl => exact hc
  | tail _ hstep ih => exact ih.step hstep

/-- Every graph grows along a run of calls. -/
theorem grows (h : c.Later c') (hc : c.Sound) (i : Nat) :
    (c.session.graph i).Grows (c'.session.graph i) := by
  induction h with
  | refl => exact .refl _
  | tail hrun hstep ih =>
    have hmid := Later.sound hrun hc
    exact ih.trans (hmid.grows hstep i)

lemma suffix (h : c.Later c') : c.streams <:+ c'.streams ∧ c.handles <:+ c'.handles := by
  induction h with
  | refl => exact ⟨List.suffix_rfl, List.suffix_rfl⟩
  | tail _ hstep ih =>
    obtain ⟨hstreams, hhandles⟩ := hstep.suffix
    exact ⟨ih.1.trans hstreams, ih.2.trans hhandles⟩

end Later

/-- A client gets on by calls that it has all for. -/
lemma later_run {calls : List Call} (h : c.Allows calls) : c.Later (c.run calls) := by
  induction calls generalizing c with
  | nil => exact .refl
  | cons call rest ih => exact .head (.call call h.1) (ih h.2)

/-- **Nothing that is there is lost or changed by later calls**, whatever they ask for and whether
they are refused or not. The nodes of a graph stay in front of those that are added; a pad that was
asked for keeps its label, or stays without one; a label keeps its owner. A stream or a handle that
was answered stays in the client's hands, and shows the same label and the same node.

**Proof sketch.** A call lets every graph grow (`Client.Sound.grows`), so a run of calls does
(`Client.Later.grows`), and a graph that grows keeps what is there (`Graph.Grows.within`). What a
stream shows is looked up under an endpoint that its graph knew already. -/
theorem kept_of_later (hc : c.Reachable) (h : c.Later c') :
    (∀ i, (c.session.graph i).Within (c'.session.graph i)) ∧
    c.streams <:+ c'.streams ∧ c.handles <:+ c'.handles ∧
    (∀ s ∈ c.streams,
      (c'.session.graph s.graph).labelOf? s.endpoint =
        (c.session.graph s.graph).labelOf? s.endpoint ∧
      ∀ id, s.endpoint.node? = some id → ∃ n,
        (c.session.graph s.graph).node? id = some n ∧
        (c'.session.graph s.graph).node? id = some n) ∧
    ∀ k ∈ c.handles, ∃ n,
      (c.session.graph k.graph).node? k.node = some n ∧
      (c'.session.graph k.graph).node? k.node = some n := by
  have hsound := hc.sound
  have hwithin : ∀ i, (c.session.graph i).Within (c'.session.graph i) := fun i =>
    (h.grows hsound i).within
  obtain ⟨hstreams, hhandles⟩ := h.suffix
  refine ⟨hwithin, hstreams, hhandles, fun s hs => ?_, fun k hk => ?_⟩
  · have hknown := hsound.streams s hs
    refine ⟨(hwithin s.graph).labelOf?_eq hknown, fun id hid => ?_⟩
    refine (hwithin s.graph).exists_node ?_
    -- a stream from a pad comes from a node, for the pad was asked for
    cases hend : s.endpoint with
    | external l => simp [hend, Endpoint.node?] at hid
    | pad p =>
      obtain rfl : p.node = id := by simpa [hend, Endpoint.node?] using hid
      rw [hend] at hknown
      obtain ⟨label, hlabel⟩ := hknown
      exact ((hsound.wellFormed s.graph).pad_place hlabel).1
  · exact (hwithin k.graph).exists_node (hsound.handles k hk)

/-- A client with a split picture, whose first copy was asked for without a label and whose second
one under the label `l1`. -/
def earlyClient : Client := start.run (sampleCalls.take 4)

/-- Calls that come later. The first two ask for the copies under other labels and are refused. The
description is refused at its second node, when its first one is built already. -/
def laterCalls : List Call :=
  let plain : Description.NodeEntry :=
    ⟨"a", "color", [], none, [.text "black"], ∅, [⟨0, some "side"⟩]⟩
  let stacked : Description.NodeEntry := ⟨"b", "hstack", ["a", "a"], some 3, [], ∅, []⟩
  [.output ⟨0, 0⟩ (some "late") none, .output ⟨0, 0⟩ (some "l2") (some 1),
    .build 0 ⟨[], [plain, stacked], ["b"]⟩, .output ⟨0, 0⟩ none (some 3)]

/-- The copies keep their labels, and the split its place. -/
theorem kept_sample :
    earlyClient.Reachable ∧ earlyClient.Later (earlyClient.run laterCalls) ∧
    ((earlyClient.run laterCalls).session.graph 0).nodes.size = 2 ∧
    (earlyClient.session.graph 0).Within ((earlyClient.run laterCalls).session.graph 0) ∧
    ((earlyClient.run laterCalls).session.graph 0).labelOf? (.pad ⟨0, 0⟩) = none ∧
    ((earlyClient.run laterCalls).session.graph 0).labelOf? (.pad ⟨0, 1⟩) =
      some ⟨"l1", by decide⟩ := by
  have hearly : earlyClient.Reachable := Reachable.run (c := start) .refl (by decide +kernel)
  have hlater : earlyClient.Later (earlyClient.run laterCalls) := later_run (by decide +kernel)
  obtain ⟨hwithin, -, -, hstreams, -⟩ := kept_of_later hearly hlater
  have hfirst := (hstreams ⟨0, .pad ⟨0, 0⟩, .filterable⟩ (by decide +kernel)).1
  have hsecond := (hstreams ⟨0, .pad ⟨0, 1⟩, .filterable⟩ (by decide +kernel)).1
  dsimp only at hfirst hsecond
  refine ⟨hearly, hlater, by decide +kernel, hwithin 0, ?_, ?_⟩
  · rw [hfirst]
    decide +kernel
  · rw [hsecond]
    decide +kernel

end Client

end MediaGraph
