import Mathlib.Tactic.Lemma
import MediaGraph.Proofs.Graph.WellFormed

/-!
# Building only lets graphs grow

Every call that builds on a graph ends in a graph that the first one grows into, also if it is
refused on the way, and what it answers with is known to that graph. The calls are put together
from a few pieces, and so is the proof: one rule for each way of putting work together, one for
each piece.

## Main definitions

* `MediaGraph.Graph.HasStream`, `MediaGraph.Graph.HasHandle` — a graph knows what a stream or a
  handle stands for.
* `MediaGraph.Edit.Extends` — from a graph, some work ends in a graph that it grows into.

## Main results

* `MediaGraph.Graph.nextNode_eq_ok_iff` — when there is a next node.
* `MediaGraph.Graph.requestPad_eq_ok` — what asking for a pad does.
* `MediaGraph.Edit.addNode_extends`, `MediaGraph.Edit.addFilter_extends`,
  `MediaGraph.Edit.addConcat_extends` — the calls that add nodes.
-/

set_option autoImplicit false

namespace MediaGraph

/-- Two checks in a row pass if both do. -/
lemma except_bind_eq_ok_iff {ε α β : Type} {x : Except ε α} {f : α → Except ε β} {b : β} :
    x >>= f = .ok b ↔ ∃ a, x = .ok a ∧ f a = .ok b := by
  cases x with
  | ok a => exact ⟨fun h => ⟨a, rfl, h⟩, fun ⟨_, rfl, h⟩ => h⟩
  | error e => exact ⟨fun h => (nomatch h), fun ⟨_, h, _⟩ => (nomatch h)⟩

/-- A check in front of others passes if it does and they do. -/
lemma except_then_eq_ok_iff {ε β : Type} {x : Except ε Unit} {y : Except ε β} {b : β} :
    (x >>= fun _ => y) = .ok b ↔ x = .ok () ∧ y = .ok b := by
  rw [except_bind_eq_ok_iff]
  exact ⟨fun ⟨_, h⟩ => h, fun h => ⟨(), h⟩⟩

/-- A refusal in front of checks does not apply if they pass. -/
lemma except_unless_eq_ok_iff {ε β : Type} {p : Prop} [Decidable p] {e : ε}
    {y : PUnit → Except ε β} {x : Except ε β} {b : β} :
    (if p then throw e >>= y else x) = .ok b ↔ ¬ p ∧ x = .ok b := by
  by_cases hp : p
  · simp only [hp, if_true, not_true, false_and, iff_false]
    exact fun h => nomatch h
  · simp only [hp, if_false, not_false_eq_true, true_and]

namespace Graph

/-! ## Streams and handles of a graph -/

/-- Whether a stream is one of the graph, from an endpoint that the graph knows. -/
def HasStream (g : Graph) (s : Stream) : Prop := s.graph = g.id ∧ g.Knows s.endpoint

/-- Whether a handle stands for a node of the graph. -/
def HasHandle (g : Graph) (h : Handle) : Prop := h.graph = g.id ∧ h.node < g.nodes.size

namespace Within

variable {g g' : Graph}

theorem hasStream (h : g.Within g') {s : Stream} (hs : g.HasStream s) : g'.HasStream s :=
  ⟨hs.1.trans h.id.symm, h.knows hs.2⟩

theorem hasHandle (h : g.Within g') {n : Handle} (hn : g.HasHandle n) : g'.HasHandle n :=
  ⟨hn.1.trans h.id.symm, hn.2.trans_le h.size_le⟩

end Within

/-! ## Single requests -/

/-- A label that a graph lets name an endpoint is free before, or names that endpoint already. -/
lemma bind_eq_ok {g g' : Graph} {l : Label} {e : Endpoint} (h : g.bind l e = .ok g') :
    g.owners.find? l = some e ∧ g' = g ∨
      g.owners.find? l = none ∧ g' = { g with owners := g.owners.insert l e } := by
  unfold bind at h
  cases hfind : g.owners.find? l with
  | none =>
    rw [hfind] at h
    exact .inr ⟨rfl, (Except.ok.inj h).symm⟩
  | some existing =>
    rw [hfind] at h
    by_cases he : existing = e
    · simp only [he, if_true] at h
      exact .inl ⟨by rw [he], (Except.ok.inj h).symm⟩
    · simp [he] at h

/-- A stream from outside: its label came to name it, or did so before. -/
lemma source_eq_ok {g g' : Graph} {text : String} {s : Stream}
    (h : g.source text = .ok (s, g')) :
    ∃ l, readLabel text = .ok l ∧ g.bind l (.external l) = .ok g' ∧
      s = ⟨g'.id, .external l, .filterable⟩ := by
  obtain ⟨l, hl, h⟩ := except_bind_eq_ok_iff.mp h
  obtain ⟨g₁, hb, h⟩ := except_bind_eq_ok_iff.mp h
  obtain ⟨rfl, rfl⟩ := Prod.mk.inj (Except.ok.inj h)
  exact ⟨l, hl, hb, rfl⟩

/-- What asking for a pad does: nothing if the pad was asked for before; else it is recorded,
together with its label if there is one. -/
theorem requestPad_eq_ok {g g' : Graph} {p : Pad} {label : Option Label}
    (h : g.requestPad p label = .ok g') :
    (∃ existing, g.pads.find? p = some existing ∧ (label = none ∨ label = existing) ∧ g' = g) ∨
    (g.pads.find? p = none ∧ label = none ∧ g' = { g with pads := g.pads.insert p none }) ∨
    (g.pads.find? p = none ∧ ∃ l g₁, label = some l ∧ g.bind l (.pad p) = .ok g₁ ∧
      g' = { g₁ with pads := g₁.pads.insert p (some l) }) := by
  unfold requestPad at h
  cases hfind : g.pads.find? p with
  | some existing =>
    left
    rw [hfind] at h
    cases label with
    | none => exact ⟨existing, rfl, .inl rfl, (Except.ok.inj h).symm⟩
    | some l =>
      by_cases he : existing = some l
      · simp only [he, if_true] at h
        exact ⟨existing, rfl, .inr he.symm, (Except.ok.inj h).symm⟩
      · simp [he] at h
  | none =>
    right
    rw [hfind] at h
    cases label with
    | none => exact .inl ⟨rfl, rfl, (Except.ok.inj h).symm⟩
    | some l =>
      obtain ⟨g₁, hb, h⟩ := except_bind_eq_ok_iff.mp h
      exact .inr ⟨rfl, l, g₁, rfl, hb, (Except.ok.inj h).symm⟩

/-- A request passes exactly if it is for a pad below the limit, under a text that is a label or
under none, and the pad may be asked for that way. -/
lemma request_eq_ok_iff {g g' : Graph} {node : Nat} {label : Option String} {pad : Option Nat}
    {s : Stream} :
    g.request node label pad = .ok (s, g') ↔
      pad.getD 0 < 1024 ∧ ∃ l, readOptionalLabel label = .ok l ∧
        g.requestPad ⟨node, pad.getD 0⟩ l = .ok g' ∧
        s = ⟨g'.id, .pad ⟨node, pad.getD 0⟩, .filterable⟩ := by
  unfold request
  simp only [except_unless_eq_ok_iff, except_bind_eq_ok_iff, not_le]
  refine and_congr_right fun _ => exists_congr fun l => and_congr_right fun _ => ?_
  constructor
  · rintro ⟨g₁, hp, h⟩
    obtain ⟨rfl, rfl⟩ := Prod.mk.inj (Except.ok.inj h)
    exact ⟨hp, rfl⟩
  · rintro ⟨hp, rfl⟩
    exact ⟨g', hp, rfl⟩

/-- The inputs pass exactly if all are filterable streams of the graph. -/
lemma checkInputs_eq_ok_iff {g : Graph} {action : String} {inputs : List Stream} :
    g.checkInputs action inputs = .ok () ↔
      ∀ s ∈ inputs, s.graph = g.id ∧ s.capability = .filterable := by
  have hone : ∀ s : Stream, g.checkInput action s = .ok () ↔
      s.graph = g.id ∧ s.capability = .filterable := by
    rintro ⟨graph, endpoint, capability⟩
    by_cases hid : graph = g.id <;>
      cases capability <;> simp [checkInput, Stream.require, Capability.meets, hid]
  induction inputs with
  | nil => simp [checkInputs]
  | cons s rest ih =>
    simp only [checkInputs, except_then_eq_ok_iff, hone, ih, List.forall_mem_cons]

/-- There is a next node exactly if its inputs are filterable streams of the graph, there is room,
and the name and the arity are in order. -/
theorem nextNode_eq_ok_iff {g : Graph} {inputs : List Stream} {filter : String} {arity : Arity}
    {arguments : Arguments} {n : Node} :
    g.nextNode inputs filter arity arguments = .ok n ↔
      (∀ s ∈ inputs, s.graph = g.id ∧ s.capability = .filterable) ∧
      g.nodes.size < 2 ^ 32 ∧ Node.IsFilterName filter ∧
      arity.accepts inputs.length = true ∧
      n = ⟨g.nodes.size, filter, inputs.map Stream.endpoint, arity, arguments⟩ := by
  unfold nextNode
  rw [except_then_eq_ok_iff, checkInputs_eq_ok_iff, except_unless_eq_ok_iff, not_le, nodeLimit_eq,
    ← List.length_map Stream.endpoint]
  exact and_congr_right fun _ => and_congr_right fun _ => Node.make_eq_ok_iff

/-! ## Single requests let a graph grow -/

/-- Asking for a stream from outside lets a graph grow, and the graph has the stream then. -/
lemma source_grows {g g' : Graph} {text : String} {s : Stream}
    (h : g.source text = .ok (s, g')) : g.Grows g' ∧ g'.HasStream s := by
  obtain ⟨l, -, hb, rfl⟩ := source_eq_ok h
  rcases bind_eq_ok hb with ⟨hl, rfl⟩ | ⟨hl, rfl⟩
  · exact ⟨.refl _, rfl, hl⟩
  · exact ⟨.single (.source hl), rfl, SortedMap.find?_insert_self _ _ _⟩

/-- Asking for a pad of a node lets a graph grow, and the graph has the stream then.

A label that names the pad although the pad was never asked for would be recorded without being
bound, but in a well-formed graph there is none. -/
lemma request_grows {g g' : Graph} (hg : g.WellFormed) {node : Nat} {label : Option String}
    {pad : Option Nat} {s : Stream} (hnode : node < g.nodes.size)
    (h : g.request node label pad = .ok (s, g')) : g.Grows g' ∧ g'.HasStream s := by
  obtain ⟨hlimit, l, -, hp, rfl⟩ := request_eq_ok_iff.mp h
  rcases requestPad_eq_ok hp with ⟨existing, hfind, -, rfl⟩ | ⟨hfind, -, rfl⟩ |
    ⟨hfind, m, g₁, -, hb, rfl⟩
  · exact ⟨.refl _, rfl, existing, hfind⟩
  · exact ⟨.single (.pad hnode hlimit hfind), rfl, none, SortedMap.find?_insert_self _ _ _⟩
  · rcases bind_eq_ok hb with ⟨hm, rfl⟩ | ⟨hm, rfl⟩
    · simp [hg.owner_pad.mp hm] at hfind
    · exact ⟨.single (.namedPad hnode hlimit hfind hm), rfl, some m,
        SortedMap.find?_insert_self _ _ _⟩

end Graph

/-! ## Rules for work -/

namespace Edit

variable {α β : Type} {g : Graph}

/-- From the graph `g`, some work ends in a graph that `g` grows into, whether it is refused on the
way or not; and if it is not, its result and the last graph satisfy `post`. -/
def Extends (g : Graph) (work : Edit α) (post : α → Graph → Prop) : Prop :=
  ∀ events, match work.run ⟨g, events⟩ with
    | .ok a d => g.Grows d.graph ∧ post a d.graph
    | .error _ d => g.Grows d.graph

/-- What holds of the result may be weakened. -/
lemma Extends.mono {work : Edit α} {post post' : α → Graph → Prop} (h : Extends g work post)
    (hpost : ∀ a g', g.Grows g' → post a g' → post' a g') : Extends g work post' := by
  intro events
  have := h events
  split at this
  · exact ⟨this.1, hpost _ _ this.1 this.2⟩
  · exact this

/-- Doing nothing. -/
lemma extends_pure {a : α} {post : α → Graph → Prop} (h : post a g) :
    Extends g (pure a) post :=
  fun _ => ⟨.refl g, h⟩

/-- Work followed by work that starts from wherever the first ended. -/
lemma Extends.bind {work : Edit α} {next : α → Edit β} {mid : α → Graph → Prop}
    {post : β → Graph → Prop} (h : Extends g work mid)
    (hnext : ∀ a g', g.Grows g' → mid a g' → Extends g' (next a) post) :
    Extends g (work >>= next) post := by
  intro events
  have hwork := h events
  rw [EStateM.run_bind]
  split at hwork
  · next a d hrun =>
    have hthen := hnext a d.graph hwork.1 hwork.2 d.events
    rw [hrun]
    dsimp only
    split at hthen
    · next hlast => simpa [hlast] using ⟨hwork.1.trans hthen.1, hthen.2⟩
    · next hlast => simpa [hlast] using hwork.1.trans hthen
  · next e d hrun => simpa [hrun] using hwork

/-- The result of work put into another form. -/
lemma Extends.map {work : Edit α} {f : α → β} {post : β → Graph → Prop}
    (h : Extends g work fun a g' => post (f a) g') : Extends g (f <$> work) post := by
  rw [map_eq_pure_bind]
  exact h.bind fun a g' _ ha => extends_pure ha

/-- A check in front of other work leaves the graph to it as it is. -/
lemma extends_check_bind {x : Except Error α} {next : α → Edit β} {post : β → Graph → Prop}
    (h : ∀ a, x = .ok a → Extends g (next a) post) : Extends g (check x >>= next) post := by
  cases x with
  | ok a => exact h a rfl
  | error e => exact fun _ => .refl g

/-- Refusing leaves the graph as it is. -/
lemma extends_throw {e : Error} {post : α → Graph → Prop} :
    Extends g (throw e : Edit α) post :=
  fun _ => .refl g

/-- Looking at the graph in front of other work. -/
lemma extends_graph_bind {next : Graph → Edit β} {post : β → Graph → Prop}
    (h : Extends g (next g) post) : Extends g (graph >>= next) post := h

/-- A step either answers with the grown graph or leaves the draft as it is. -/
theorem step_run (f : Graph → Except Error (α × Graph)) (d : Draft) :
    (step f).run d =
      match f d.graph with
      | .ok (a, g) => .ok a { d with graph := g }
      | .error e => .error e d := by
  change (check (f d.graph) >>= _).run d = _
  cases f d.graph <;> rfl

/-- A step that is not refused changes the graph only. -/
lemma step_run_of_ok {f : Graph → Except Error (α × Graph)} {d : Draft} {a : α} {g : Graph}
    (h : f d.graph = .ok (a, g)) : (step f).run d = .ok a { d with graph := g } := by
  rw [step_run, h]

/-- A step lets a graph grow if its answer is a grown graph. -/
lemma extends_step {f : Graph → Except Error (α × Graph)} {post : α → Graph → Prop}
    (h : ∀ a g', f g = .ok (a, g') → g.Grows g' ∧ post a g') : Extends g (step f) post := by
  intro events
  rw [step_run]
  cases hf : f g with
  | ok r => exact h r.1 r.2 hf
  | error e => exact .refl g

/-- Asking for a stream from outside. -/
lemma source_extends {text : String} : Extends g (source text) fun s g' => g'.HasStream s :=
  extends_step fun _ _ h => Graph.source_grows h

/-- Asking for a pad of a node. -/
lemma request_extends (hg : g.WellFormed) {node : Nat} {label : Option String}
    {pad : Option Nat} (hnode : node < g.nodes.size) :
    Extends g (request node label pad) fun s g' => g'.HasStream s :=
  extends_step fun _ _ h => Graph.request_grows hg hnode h

/-! ## Calls that add nodes -/

/-- Adding a node either appends the next node and reports it, or leaves the draft as it is. -/
theorem addNode_run (inputs : List Stream) (filter : String) (arity : Arity)
    (arguments : Arguments) (d : Draft) :
    (addNode inputs filter arity arguments).run d =
      match d.graph.nextNode inputs filter arity arguments with
      | .ok n => .ok ⟨d.graph.id, n.id⟩
          ⟨{ d.graph with nodes := d.graph.nodes.push n },
            d.events.push (.built n.id filter arity inputs.length)⟩
      | .error e => .error e d := by
  change (check (d.graph.nextNode inputs filter arity arguments) >>= _).run d = _
  cases d.graph.nextNode inputs filter arity arguments <;> rfl

/-- Adding a node that reads streams of the graph. Streams of other graphs are refused, so nothing
has to be known of them. -/
theorem addNode_extends {inputs : List Stream} {filter : String} {arity : Arity}
    {arguments : Arguments} (hinputs : ∀ s ∈ inputs, s.graph = g.id → g.Knows s.endpoint) :
    Extends g (addNode inputs filter arity arguments) fun h g' => g'.HasHandle h := by
  intro events
  rw [addNode_run]
  cases hn : g.nextNode inputs filter arity arguments with
  | error e => exact .refl g
  | ok n =>
    obtain ⟨hall, hroom, hname, harity, rfl⟩ := Graph.nextNode_eq_ok_iff.mp hn
    have hknown : ∀ e ∈ inputs.map Stream.endpoint, g.Knows e := by
      intro e he
      obtain ⟨s, hs, rfl⟩ := List.mem_map.mp he
      exact hinputs s hs (hall s hs).1
    refine ⟨.single (.node rfl hroom hname ?_ hknown), rfl, ?_⟩
    · simpa using harity
    · simp

/-- Adding a node for any number of inputs. -/
lemma addMultiOutput_extends {inputs : List Stream} {filter : String} {parts : List Arguments}
    (hinputs : ∀ s ∈ inputs, s.graph = g.id → g.Knows s.endpoint) :
    Extends g (addMultiOutput inputs filter parts) fun h g' => g'.HasHandle h :=
  addNode_extends hinputs

/-- Reading the label of an output only looks at the graph. -/
lemma freeLabel_extends {text : String} : Extends g (freeLabel text) fun _ g' => g' = g := by
  unfold freeLabel
  split
  · exact extends_pure rfl
  · refine extends_check_bind fun label _ => extends_graph_bind ?_
    exact extends_check_bind fun _ _ => extends_pure rfl

/-- Adding a node and asking for an output of it. -/
lemma addNode_request_extends (hg : g.WellFormed) {inputs : List Stream} {filter : String}
    {arity : Arity} {arguments : Arguments} {label : Option String} {pad : Option Nat}
    (hinputs : ∀ s ∈ inputs, s.graph = g.id → g.Knows s.endpoint) :
    Extends g (addNode inputs filter arity arguments >>= fun h => request h.node label pad)
      fun s g' => g'.HasStream s :=
  (addNode_extends hinputs).bind fun _ _ hgrow hhandle =>
    request_extends (hgrow.wellFormed hg) hhandle.2

/-- Adding a node and asking for its output, named or not. -/
theorem addFilter_extends (hg : g.WellFormed) {inputs : List Stream} {filter : String}
    {parts : List Arguments} (hinputs : ∀ s ∈ inputs, s.graph = g.id → g.Knows s.endpoint) :
    Extends g (addFilter inputs filter parts) fun s g' => g'.HasStream s := by
  unfold addFilter
  refine freeLabel_extends.bind fun label g' _ hsame => ?_
  subst hsame
  exact addNode_request_extends hg hinputs

/-- Adding a concatenation and asking for its output. -/
theorem addConcat_extends (hg : g.WellFormed) {inputs : List Stream} {parts : List Arguments}
    (hinputs : ∀ s ∈ inputs, s.graph = g.id → g.Knows s.endpoint) :
    Extends g (addConcat inputs parts) fun s g' => g'.HasStream s := by
  unfold addConcat
  exact extends_check_bind fun arguments _ => addNode_request_extends hg hinputs

/-- Applying a filter to one stream. -/
lemma apply_extends (hg : g.WellFormed) {s : Stream} {filter : String}
    {parts : List Arguments} (hs : s.graph = g.id → g.Knows s.endpoint) :
    Extends g (apply s filter parts) fun s g' => g'.HasStream s :=
  extends_check_bind fun _ _ => (addFilter_extends hg (by simpa using hs))

/-- Adding a node that reads a stream and then others. -/
lemma applyWith_extends {s : Stream} {others : List Stream} {filter : String} {arity : Arity}
    {arguments : Arguments}
    (hinputs : ∀ t ∈ s :: others, t.graph = g.id → g.Knows t.endpoint) :
    Extends g (applyWith s others filter arity arguments) fun h g' => g'.HasHandle h :=
  extends_check_bind fun _ _ => (addNode_extends hinputs)

/-- Copying a stream. -/
lemma duplicate_extends {s : Stream} {filter : String}
    (hs : s.graph = g.id → g.Knows s.endpoint) :
    Extends g (duplicate filter s) fun h g' => g'.HasHandle h :=
  extends_check_bind fun _ _ => (addNode_extends (by simpa using hs))

/-- Concatenating others and a stream. -/
lemma concatAfter_extends (hg : g.WellFormed) {s : Stream} {others : List Stream}
    {parts : List Arguments}
    (hinputs : ∀ t ∈ others ++ [s], t.graph = g.id → g.Knows t.endpoint) :
    Extends g (concatAfter s others parts) fun s g' => g'.HasStream s :=
  extends_check_bind fun _ _ => (addConcat_extends hg hinputs)

end Edit

end MediaGraph
