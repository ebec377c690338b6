import MediaGraph.Proofs.Arguments
import MediaGraph.Proofs.Arguments.Segments
import MediaGraph.Proofs.LabelSupply

/-!
# Calls that add a node

A call that builds adds one node to its graph and may ask for the pad 0 of that node. It does both or
neither. Checks in front of the node leave the graph as it is, and asking for the pad comes last but
cannot fail: no pad of a new node was asked for before, and the label was found to be free.

## Main definitions

* `MediaGraph.Addition` — what a call adds to a graph.
* `MediaGraph.Graph.Accepts`, `MediaGraph.Graph.add` — when a graph accepts an addition, and the
  graph afterwards.
* `MediaGraph.Edit.Adds` — some work carries out a plan as a whole, or changes nothing.

## Main results

* `MediaGraph.Edit.addNode_adds`, `MediaGraph.Edit.addFilter_adds`,
  `MediaGraph.Edit.addConcat_adds` — the plans of the calls.
-/

set_option autoImplicit false

namespace MediaGraph

/-- What a call adds to a graph. -/
structure Addition where
  /-- The streams that the new node reads, in the order of its inputs. -/
  inputs : List Stream
  /-- The name of its filter. -/
  filter : String
  /-- The number of inputs that it asks for. -/
  arity : Arity
  /-- The arguments of its filter. -/
  arguments : Arguments
  /-- Whether its pad 0 is asked for, and then under which label, if under any. -/
  output : Option (Option Label)

namespace Label

/-- Whether a text asks for a label or, if it is empty, for none. -/
def Asked (text : String) : Option Label → Prop
  | none => text = ""
  | some l => l.text = text

/-- What the value of an option asks for: no label if it is not set, else what its text does. -/
def AskedBy : Option Value → Option Label → Prop
  | none, label => label = none
  | some v, label => Asked v.render label

lemma text_ne_empty (l : Label) : l.text ≠ "" := by
  intro hempty
  have hsound := l.sound
  simp [hempty, defect?] at hsound

/-- An option that is not set asks for what an empty text does. -/
lemma askedBy_iff {v : Option Value} {label : Option Label} :
    AskedBy v label ↔ Asked ((v.map Value.render).getD "") label := by
  cases v with
  | some v => rfl
  | none =>
    cases label with
    | none => simp [AskedBy, Asked]
    | some l => simp [AskedBy, Asked, l.text_ne_empty]

end Label

namespace Addition

/-- Additions of a filter and its output. The option `label` is no argument of the filter, and it
may ask for a label of the output; by position and under all other keys the filter has what the
parts say. -/
def OfFilter (inputs : List Stream) (filter : String) (parts : List Arguments) (x : Addition) :
    Prop :=
  ∃ a label, a.SaysExcept parts "label" none ∧
    Label.AskedBy (Arguments.lastValue? parts "label") label ∧
    x = ⟨inputs, filter, .any, a, some label⟩

/-- Additions of a concatenation and its output. The number of segments becomes the option `n`; by
position and under all other keys the concatenation has what the parts say. -/
def OfConcat (inputs : List Stream) (parts : List Arguments) (x : Addition) : Prop :=
  ∃ a v w n, (Arguments.merge parts).Segments inputs.length v w n ∧
    a.SaysExcept parts "n" (some (.int n)) ∧ x = ⟨inputs, "concat", .any, a, some none⟩

variable {inputs : List Stream} {filter : String} {parts : List Arguments} {x : Addition}

/-- The option `label` is taken out of the merged arguments. -/
lemma ofFilter_iff : x.OfFilter inputs filter parts ↔
    ∃ label, Label.Asked ((Arguments.merge parts).take "label").1 label ∧
      x = ⟨inputs, filter, .any, ((Arguments.merge parts).take "label").2, some label⟩ := by
  have htext : ((Arguments.merge parts).take "label").1 =
      ((Arguments.lastValue? parts "label").map Value.render).getD "" := by
    rw [Arguments.take, Arguments.get?_merge]
  simp only [OfFilter, Arguments.saysExcept_none_iff, Label.askedBy_iff, htext, exists_and_left,
    exists_eq_left]

/-- The option `n` is set among the merged arguments. -/
lemma ofConcat_iff : x.OfConcat inputs parts ↔
    ∃ v w n, (Arguments.merge parts).Segments inputs.length v w n ∧
      x = ⟨inputs, "concat", .any, (Arguments.merge parts).set "n" (.int n), some none⟩ := by
  simp only [OfConcat, Arguments.saysExcept_some_iff]
  constructor
  · rintro ⟨-, v, w, n, h, rfl, rfl⟩
    exact ⟨v, w, n, h, rfl⟩
  · rintro ⟨v, w, n, h, rfl⟩
    exact ⟨_, v, w, n, h, rfl, rfl⟩

end Addition

namespace Graph

/-- The graph after a pad was asked for the first time, under a label or not. -/
def withPad (g : Graph) (p : Pad) (label : Option Label) : Graph :=
  { g with
    pads := g.pads.insert p label
    owners := match label with
      | some l => g.owners.insert l (.pad p)
      | none => g.owners }

/-- Whether a graph accepts an addition. -/
structure Accepts (g : Graph) (x : Addition) : Prop where
  /-- Every input is a stream of the graph that may feed a filter. -/
  inputs : ∀ s ∈ x.inputs, s.graph = g.id ∧ s.capability = .filterable
  /-- There is room for another node. -/
  room : g.nodes.size < 2 ^ 32
  /-- The filter has a name that can stand in an expression. -/
  name : Node.IsFilterName x.filter
  /-- There are as many inputs as are asked for. -/
  arity : ∀ count, x.arity = .exact count → x.inputs.length = count
  /-- A label of the output does not name anything yet. -/
  label : ∀ l, x.output = some (some l) → g.owners.find? l = none

/-- The node of an addition: it gets the number of nodes that are there as its own number. -/
def newNode (g : Graph) (x : Addition) : Node :=
  ⟨g.nodes.size, x.filter, x.inputs.map Stream.endpoint, x.arity, x.arguments⟩

/-- The handle of the next node. -/
def nextHandle (g : Graph) : Handle := ⟨g.id, g.nodes.size⟩

/-- The stream from the pad 0 of the next node. -/
def nextOutput (g : Graph) : Stream := ⟨g.id, .pad ⟨g.nodes.size, 0⟩, .filterable⟩

/-- The graph after an addition. -/
def add (g : Graph) (x : Addition) : Graph :=
  let g' : Graph := { g with nodes := g.nodes.push (g.newNode x) }
  match x.output with
  | some label => g'.withPad ⟨g.nodes.size, 0⟩ label
  | none => g'

/-- What is reported of an addition. -/
def addedEvent (g : Graph) (x : Addition) : Event :=
  .built g.nodes.size x.filter x.arity x.inputs.length

variable {g : Graph}

/-- Asking for the output too is a matter of the label only. -/
lemma accepts_output_iff {inputs : List Stream} {filter : String} {arity : Arity}
    {arguments : Arguments} {label : Option Label} :
    g.Accepts ⟨inputs, filter, arity, arguments, some label⟩ ↔
      g.Accepts ⟨inputs, filter, arity, arguments, none⟩ ∧
        ∀ l, label = some l → g.owners.find? l = none := by
  constructor
  · rintro ⟨hinputs, hroom, hname, harity, hlabel⟩
    exact ⟨⟨hinputs, hroom, hname, harity, by simp⟩, by simpa using hlabel⟩
  · rintro ⟨⟨hinputs, hroom, hname, harity, -⟩, hlabel⟩
    exact ⟨hinputs, hroom, hname, harity, by simpa using hlabel⟩

/-- A text is read as the label that it is the text of. -/
lemma readLabel_eq_ok_iff {text : String} {l : Label} : readLabel text = .ok l ↔ l.text = text := by
  rw [← Label.ofText_eq_ok_iff, readLabel]
  cases Label.ofText text <;> simp

/-- A label is free if it does not name anything. -/
lemma checkFree_eq_ok_iff {l : Label} : g.checkFree l = .ok () ↔ g.owners.find? l = none := by
  unfold checkFree SortedMap.contains
  cases g.owners.find? l <;> simp

/-- No pad of the next node was asked for, for pads that were are those of nodes. -/
lemma WellFormed.find?_newPad (hg : g.WellFormed) {index : Nat} :
    g.pads.find? ⟨g.nodes.size, index⟩ = none := by
  cases hfind : g.pads.find? ⟨g.nodes.size, index⟩ with
  | none => rfl
  | some label =>
    have hlt := (hg.pad_place hfind).1
    exact (hlt.ne rfl).elim

/-- A pad that was not asked for before can be asked for under a free label or under none. -/
lemma requestPad_of_new {p : Pad} {label : Option Label} (hpad : g.pads.find? p = none)
    (hfree : ∀ l, label = some l → g.owners.find? l = none) :
    g.requestPad p label = .ok (g.withPad p label) := by
  unfold requestPad
  rw [hpad]
  cases label with
  | none => rfl
  | some l =>
    have hbind : g.bind l (.pad p) = .ok { g with owners := g.owners.insert l (.pad p) } := by
      rw [bind, hfree l rfl]
    simp only [hbind]
    rfl

/-- The first request for a pad 0 passes if its label is free. -/
lemma request_of_new {node : Nat} {label : Option Label}
    (hpad : g.pads.find? ⟨node, 0⟩ = none)
    (hfree : ∀ l, label = some l → g.owners.find? l = none) :
    g.request node (label.map Label.text) none =
      .ok (⟨g.id, .pad ⟨node, 0⟩, .filterable⟩, g.withPad ⟨node, 0⟩ label) := by
  refine request_eq_ok_iff.mpr ⟨by decide, label, ?_, requestPad_of_new hpad hfree, rfl⟩
  cases label with
  | none => rfl
  | some l =>
    have hread : readLabel l.text = .ok l := readLabel_eq_ok_iff.mpr rfl
    simp only [Option.map_some, readOptionalLabel, hread]
    rfl

end Graph

namespace Edit

variable {α β : Type} {g : Graph}

/-- On the graph `g`, some work stands for additions that satisfy `plans`. One that the graph accepts
is carried out and reported, and answered with `answer`; if there is none, the work is refused and
leaves the graph and the reports as they are. -/
structure Adds (g : Graph) (work : Edit α) (plans : Addition → Prop) (answer : Addition → α) :
    Prop where
  /-- What is accepted is carried out. -/
  accepted : ∀ x, plans x → g.Accepts x → ∀ events,
    work.run ⟨g, events⟩ = .ok (answer x) ⟨g.add x, events.push (g.addedEvent x)⟩
  /-- If nothing is accepted, nothing changes. -/
  refused : (∀ x, plans x → ¬ g.Accepts x) → ∀ events,
    ∃ e, work.run ⟨g, events⟩ = .error e ⟨g, events⟩

namespace Adds

variable {work : Edit α} {plans plans' : Addition → Prop} {answer : Addition → α}

/-- Only plans that can be accepted count. -/
lemma congr (h : Adds g work plans answer) (hplans : ∀ x, g.Accepts x → (plans x ↔ plans' x)) :
    Adds g work plans' answer where
  accepted x hx haccept := h.accepted x ((hplans x haccept).mpr hx) haccept
  refused hnone := h.refused fun x hx haccept => hnone x ((hplans x haccept).mp hx) haccept

lemma map (h : Adds g work plans answer) {f : α → β} {answer' : Addition → β}
    (hf : ∀ x, plans x → f (answer x) = answer' x) : Adds g (f <$> work) plans answer' where
  accepted x hx haccept events := by
    rw [map_eq_pure_bind, EStateM.run_bind, h.accepted x hx haccept events, ← hf x hx]
    rfl
  refused hnone events := by
    obtain ⟨e, he⟩ := h.refused hnone events
    exact ⟨e, by rw [map_eq_pure_bind, EStateM.run_bind, he]⟩

end Adds

/-- A check in front of other work: what it finds may go into the plan. -/
lemma adds_check_bind {y : Except Error α} {next : α → Edit β} {plans : α → Addition → Prop}
    {answer : Addition → β} (h : ∀ a, y = .ok a → Adds g (next a) (plans a) answer) :
    Adds g (check y >>= next) (fun x => ∃ a, y = .ok a ∧ plans a x) answer := by
  cases y with
  | ok a =>
    refine (h a rfl).congr fun x _ => ?_
    simp
  | error e =>
    exact ⟨fun x hx => by simp at hx, fun _ events => ⟨e, rfl⟩⟩

lemma adds_graph_bind {next : Graph → Edit β} {plans : Addition → Prop} {answer : Addition → β}
    (h : Adds g (next g) plans answer) : Adds g (graph >>= next) plans answer :=
  ⟨h.accepted, h.refused⟩

/-- A stream has to be fit for what the plan uses it for. -/
lemma adds_require {s : Stream} {action : String} {next : Edit β} {plans : Addition → Prop}
    {answer : Addition → β} (h : Adds g next plans answer)
    (hused : ∀ x, plans x → s ∈ x.inputs) :
    Adds g (check (s.require .filterable action) >>= fun _ => next) plans answer := by
  refine (adds_check_bind fun _ _ => h).congr fun x haccept => ?_
  constructor
  · rintro ⟨-, -, hx⟩
    exact hx
  · intro hx
    have hfit := (haccept.inputs s (hused x hx)).2
    exact ⟨(), by simp [Stream.require, hfit, Capability.meets], hx⟩

/-- Adding a node. -/
theorem addNode_adds (inputs : List Stream) (filter : String) (arity : Arity)
    (arguments : Arguments) :
    Adds g (addNode inputs filter arity arguments)
      (· = ⟨inputs, filter, arity, arguments, none⟩) fun _ => g.nextHandle where
  accepted x hx haccept events := by
    subst hx
    obtain ⟨hinputs, hroom, hname, harity, -⟩ := haccept
    rw [addNode_run, Graph.nextNode_eq_ok_iff.mpr
      ⟨hinputs, hroom, hname, Arity.accepts_iff.mpr harity, rfl⟩]
    rfl
  refused hnone events := by
    rw [addNode_run]
    cases hnext : g.nextNode inputs filter arity arguments with
    | error e => exact ⟨e, rfl⟩
    | ok n =>
      obtain ⟨hinputs, hroom, hname, harity, -⟩ := Graph.nextNode_eq_ok_iff.mp hnext
      exact (hnone _ rfl ⟨hinputs, hroom, hname, Arity.accepts_iff.mp harity, by simp⟩).elim

/-- Adding a node and asking for its pad 0, under a label that is free or under none. -/
lemma addNode_request_adds (hg : g.WellFormed) (inputs : List Stream) (filter : String)
    (arguments : Arguments) (label : Option Label)
    (hfree : ∀ l, label = some l → g.owners.find? l = none) :
    Adds g (addNode inputs filter .any arguments >>= fun h =>
        request h.node (label.map Label.text) none)
      (· = ⟨inputs, filter, .any, arguments, some label⟩)
      fun _ => g.nextOutput := by
  have hnode := addNode_adds (g := g) inputs filter .any arguments
  constructor
  · rintro x rfl haccept events
    have hrun := hnode.accepted _ rfl (Graph.accepts_output_iff.mp haccept).1 events
    rw [EStateM.run_bind, hrun]
    exact step_run_of_ok (Graph.request_of_new hg.find?_newPad hfree)
  · intro hnone events
    have hno : ∀ x, x = (⟨inputs, filter, .any, arguments, none⟩ : Addition) → ¬ g.Accepts x := by
      rintro x rfl haccept
      exact hnone _ rfl (Graph.accepts_output_iff.mpr ⟨haccept, hfree⟩)
    obtain ⟨e, he⟩ := hnode.refused hno events
    exact ⟨e, by rw [EStateM.run_bind, he]⟩

/-- Adding a node and asking for its output, under the label that an option may name. -/
theorem addFilter_adds (hg : g.WellFormed) (inputs : List Stream) (filter : String)
    (parts : List Arguments) :
    Adds g (addFilter inputs filter parts) (Addition.OfFilter inputs filter parts)
      fun _ => g.nextOutput := by
  refine Adds.congr ?_ fun x _ => Addition.ofFilter_iff.symm
  unfold addFilter freeLabel Arguments.labelKey
  generalize (Arguments.merge parts).take "label" = taken
  obtain ⟨text, arguments⟩ := taken
  dsimp only
  by_cases hempty : text = ""
  · subst hempty
    simp only [if_true, pure_bind]
    refine (addNode_request_adds hg inputs filter arguments none (by simp)).congr fun x _ => ?_
    constructor
    · rintro rfl
      exact ⟨none, rfl, rfl⟩
    · rintro ⟨none | l, hasked, rfl⟩
      · rfl
      · exact (l.text_ne_empty hasked).elim
  · simp only [if_neg hempty, bind_assoc, pure_bind]
    refine (adds_check_bind fun l _ => adds_graph_bind (adds_check_bind fun _ hfree =>
      addNode_request_adds hg inputs filter arguments (some l) ?_)).congr fun x haccept => ?_
    · rintro m ⟨⟩
      exact Graph.checkFree_eq_ok_iff.mp hfree
    · constructor
      · rintro ⟨l, hl, -, -, rfl⟩
        exact ⟨some l, Graph.readLabel_eq_ok_iff.mp hl, rfl⟩
      · rintro ⟨none | l, hasked, rfl⟩
        · exact (hempty hasked).elim
        · have hfree := Graph.checkFree_eq_ok_iff.mpr (haccept.label l rfl)
          exact ⟨l, Graph.readLabel_eq_ok_iff.mpr hasked, (), hfree, rfl⟩

/-- Adding a concatenation and asking for its output. -/
theorem addConcat_adds (hg : g.WellFormed) (inputs : List Stream) (parts : List Arguments) :
    Adds g (addConcat inputs parts) (Addition.OfConcat inputs parts) fun _ => g.nextOutput := by
  unfold addConcat
  refine (adds_check_bind fun arguments _ =>
    addNode_request_adds hg inputs "concat" arguments none (by simp)).congr fun x _ => ?_
  rw [Addition.ofConcat_iff]
  simp only [Arguments.forSegments_eq_ok_iff]
  constructor
  · rintro ⟨-, ⟨v, w, n, h, rfl⟩, rfl⟩
    exact ⟨v, w, n, h, rfl⟩
  · rintro ⟨v, w, n, h, rfl⟩
    exact ⟨_, ⟨v, w, n, h, rfl⟩, rfl⟩

/-- Applying a filter to one stream. -/
lemma apply_adds (hg : g.WellFormed) (s : Stream) (filter : String) (parts : List Arguments) :
    Adds g (apply s filter parts) (Addition.OfFilter [s] filter parts)
      fun _ => g.nextOutput := by
  refine adds_require (addFilter_adds hg [s] filter parts) ?_
  rintro x ⟨a, label, -, -, rfl⟩
  exact List.mem_singleton_self s

/-- Adding a node that reads a stream and then others. -/
lemma applyWith_adds (s : Stream) (others : List Stream) (filter : String) (arity : Arity)
    (arguments : Arguments) :
    Adds g (applyWith s others filter arity arguments)
      (· = ⟨s :: others, filter, arity, arguments, none⟩) fun _ => g.nextHandle := by
  refine adds_require (addNode_adds (s :: others) filter arity arguments) ?_
  rintro x rfl
  exact List.mem_cons_self

/-- Copying a stream. -/
lemma duplicate_adds (filter : String) (s : Stream) :
    Adds g (duplicate filter s) (· = ⟨[s], filter, .exact 1, .empty, none⟩)
      fun _ => g.nextHandle := by
  refine adds_require (addNode_adds [s] filter (.exact 1) .empty) ?_
  rintro x rfl
  exact List.mem_singleton_self s

/-- Concatenating others and a stream. -/
lemma concatAfter_adds (hg : g.WellFormed) (s : Stream) (others : List Stream)
    (parts : List Arguments) :
    Adds g (concatAfter s others parts) (Addition.OfConcat (others ++ [s]) parts)
      fun _ => g.nextOutput := by
  refine adds_require (addConcat_adds hg (others ++ [s]) parts) ?_
  rintro x ⟨a, v, w, n, -, -, rfl⟩
  exact List.mem_append_right others (List.mem_singleton_self s)

end Edit

end MediaGraph
