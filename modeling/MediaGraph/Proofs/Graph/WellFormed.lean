import Mathlib.Algebra.Group.Nat.Defs
import Mathlib.Data.List.TakeWhile
import Mathlib.Logic.Relation
import MediaGraph.Graph.Construction
import MediaGraph.Proofs.SortedMap

/-!
# Well-formed graphs

What every graph that callers can build has in common, and what it means for a graph to grow. All
changes of a graph are made of four: a label of an endpoint outside, a node, a pad without a label
and a pad under a label. Each of them keeps a graph well formed and keeps what is there.

## Main definitions

* `MediaGraph.Graph.Knows` — the endpoints that streams of a graph can come from.
* `MediaGraph.Graph.WellFormed` — the invariant of graphs.
* `MediaGraph.Graph.Step`, `MediaGraph.Graph.Grows` — one change, and any number of them.
* `MediaGraph.Graph.Within` — all that is in one graph is in another.

## Main results

* `MediaGraph.Graph.WellFormed.step`, `MediaGraph.Graph.Grows.wellFormed` — growing keeps a graph
  well formed.
* `MediaGraph.Graph.Grows.within` — nothing is lost or changed by growing.
-/

set_option autoImplicit false

namespace MediaGraph

/-! ## Names of filters -/

namespace Text

/-- Whether a character is white space, by the code points with the Unicode property White_Space. -/
def IsWhiteSpace (c : Char) : Prop :=
  9 ≤ c.toNat ∧ c.toNat ≤ 13 ∨ 0x2000 ≤ c.toNat ∧ c.toNat ≤ 0x200A ∨
    c.toNat ∈ [0x20, 0x85, 0xA0, 0x1680, 0x2028, 0x2029, 0x202F, 0x205F, 0x3000]

/-- The blank characters are white space. -/
lemma isBlank_iff {c : Char} : isBlank c = true ↔ IsWhiteSpace c := by
  simp only [isBlank, blankRanges, IsWhiteSpace, List.any_cons, List.any_nil, Bool.or_eq_true,
    Bool.and_eq_true, decide_eq_true_eq, List.mem_cons, List.not_mem_nil, Bool.false_eq_true,
    or_false]
  omega

/-- A text is all blank if trimming leaves nothing of it. -/
lemma trim_eq_nil_iff {cs : List Char} : trim cs = [] ↔ ∀ c ∈ cs, isBlank c = true := by
  constructor
  · intro h
    have hrev : (cs.dropWhile isBlank).reverse.dropWhile isBlank = [] := by
      simpa [trim] using h
    have hall : ∀ c ∈ cs.dropWhile isBlank, isBlank c = true := by
      simpa using List.dropWhile_eq_nil_iff.mp hrev
    have hnil : cs.dropWhile isBlank = [] := by
      cases hd : cs.dropWhile isBlank with
      | nil => rfl
      | cons c rest =>
        have hne : cs.dropWhile isBlank ≠ [] := by simp [hd]
        have hhead := List.head_dropWhile_not isBlank hne
        have hmem := hall _ (List.head_mem hne)
        simp [hmem] at hhead
    exact List.dropWhile_eq_nil_iff.mp hnil
  · intro h
    have hnil : cs.dropWhile isBlank = [] := List.dropWhile_eq_nil_iff.mpr h
    simp [trim, hnil]

end Text

/-- An arity accepts any number of inputs but those that it fixes otherwise. -/
lemma Arity.accepts_iff {a : Arity} {k : Nat} :
    a.accepts k = true ↔ ∀ count, a = .exact count → k = count := by
  cases a with
  | exact n => simpa [accepts] using eq_comm
  | any => simp [accepts]

namespace Node

/-- A filter name: it has characters, and among them is no white space and nothing that separates the
parts of an expression. -/
def IsFilterName (filter : String) : Prop :=
  filter.toList ≠ [] ∧
    ∀ c ∈ filter.toList, ¬ Text.IsWhiteSpace c ∧ c ∉ ['[', ']', ';', ',', '=', ':']

/-- The characters that the expression needs for itself are white space and the separators. -/
lemma isReserved_eq_false_iff {c : Char} :
    isReserved c = false ↔ ¬ Text.IsWhiteSpace c ∧ c ∉ ['[', ']', ';', ',', '=', ':'] := by
  rw [← Text.isBlank_iff]
  simp [isReserved, and_assoc]

/-- A filter name has characters, and the expression needs none of them for itself. -/
lemma isFilterName_iff {filter : String} :
    IsFilterName filter ↔ filter.toList ≠ [] ∧ ∀ c ∈ filter.toList, isReserved c = false := by
  simp only [IsFilterName, isReserved_eq_false_iff]

/-- The name check accepts exactly the filter names. -/
theorem nameProblem?_eq_none_iff {filter : String} :
    nameProblem? filter = none ↔ IsFilterName filter := by
  rw [isFilterName_iff]
  unfold nameProblem?
  split
  · next hblank =>
    have hall := Text.trim_eq_nil_iff.mp hblank
    constructor
    · intro h
      simp at h
    · rintro ⟨hne, hfree⟩
      obtain ⟨c, rest, hc⟩ := List.exists_cons_of_ne_nil hne
      have hmem : c ∈ filter.toList := hc ▸ List.mem_cons_self
      have := hfree c hmem
      simp [isReserved, hall c hmem] at this
  · next hne =>
    constructor
    · intro h
      refine ⟨?_, ?_⟩
      · intro hnil
        exact hne (by simp [hnil, Text.trim])
      · simpa [List.find?_eq_none] using h
    · rintro ⟨-, hfree⟩
      have hfind : filter.toList.find? isReserved = none := by
        rw [List.find?_eq_none]
        intro c hc
        simp [hfree c hc]
      simp [hfind]

/-- A node is made exactly from a filter name and as many inputs as the arity accepts. -/
theorem make_eq_ok_iff {id : Nat} {filter : String} {inputs : List Endpoint} {arity : Arity}
    {arguments : Arguments} {n : Node} :
    make id filter inputs arity arguments = .ok n ↔
      IsFilterName filter ∧ arity.accepts inputs.length = true ∧
        n = ⟨id, filter, inputs, arity, arguments⟩ := by
  rw [← nameProblem?_eq_none_iff]
  unfold make
  cases hname : nameProblem? filter with
  | some problem => simp
  | none =>
    cases arity with
    | any => simp [Arity.accepts, eq_comm]
    | exact k =>
      by_cases hk : k = inputs.length
      · simp [Arity.accepts, hk, eq_comm]
      · simp [Arity.accepts, hk]

end Node

namespace Graph

/-- A graph can hold as many nodes as there are numbers of 32 bits. -/
lemma nodeLimit_eq : nodeLimit = 2 ^ 32 := rfl

/-! ## The invariant -/

/-- Whether streams of the graph can come from an endpoint: its label names it, or its pad was
asked for. -/
def Knows (g : Graph) : Endpoint → Prop
  | .external l => g.owners.find? l = some (.external l)
  | .pad p => ∃ label, g.pads.find? p = some label

/-- The invariant of graphs. -/
structure WellFormed (g : Graph) : Prop where
  /-- There are no more nodes than a graph can hold. -/
  room : g.nodes.size ≤ 2 ^ 32
  /-- A node stands at the place of its number. -/
  node_id : ∀ {i n}, g.node? i = some n → n.id = i
  /-- A node has a filter name. -/
  node_name : ∀ {i n}, g.node? i = some n → Node.IsFilterName n.filter
  /-- A node has as many inputs as its arity accepts. -/
  node_arity : ∀ {i n}, g.node? i = some n → n.arity.accepts n.inputs.length = true
  /-- A node reads pads that were asked for, of nodes before it. -/
  reads_pad : ∀ {i n p}, g.node? i = some n → .pad p ∈ n.inputs →
    p.node < i ∧ ∃ label, g.pads.find? p = some label
  /-- A node reads endpoints outside under labels that name them. -/
  reads_external : ∀ {i n l}, g.node? i = some n → .external l ∈ n.inputs →
    g.owners.find? l = some (.external l)
  /-- A pad that was asked for is one of a node, and below the limit. -/
  pad_place : ∀ {p label}, g.pads.find? p = some label →
    p.node < g.nodes.size ∧ p.index < 1024
  /-- A label names a pad exactly if the pad was asked for under it. -/
  owner_pad : ∀ {l p}, g.owners.find? l = some (.pad p) ↔ g.pads.find? p = some (some l)
  /-- A label that names an endpoint outside is the label of that endpoint. -/
  owner_external : ∀ {l m}, g.owners.find? l = some (.external m) → m = l

/-- The graph before anything is built is well formed. -/
theorem wellFormed_empty (id : Nat) : (empty id).WellFormed where
  room := Nat.zero_le _
  node_id h := by simp [empty, node?] at h
  node_name h := by simp [empty, node?] at h
  node_arity h := by simp [empty, node?] at h
  reads_pad h := by simp [empty, node?] at h
  reads_external h := by simp [empty, node?] at h
  pad_place h := by simp [empty] at h
  owner_pad := by simp [empty]
  owner_external h := by simp [empty] at h

/-! ## Growing -/

/-- One change of a graph. -/
inductive Step (g : Graph) : Graph → Prop where
  /-- A free label comes to name an endpoint outside. -/
  | source {l : Label} (free : g.owners.find? l = none) :
    Step g { g with owners := g.owners.insert l (.external l) }
  /-- A node is added that reads what the graph knows. -/
  | node {n : Node} (id : n.id = g.nodes.size) (room : g.nodes.size < 2 ^ 32)
      (name : Node.IsFilterName n.filter) (arity : n.arity.accepts n.inputs.length = true)
      (inputs : ∀ e ∈ n.inputs, g.Knows e) :
    Step g { g with nodes := g.nodes.push n }
  /-- A pad is asked for the first time, without a label. -/
  | pad {p : Pad} (exist : p.node < g.nodes.size) (limit : p.index < 1024)
      (first : g.pads.find? p = none) :
    Step g { g with pads := g.pads.insert p none }
  /-- A pad is asked for the first time, under a free label. -/
  | namedPad {p : Pad} {l : Label} (exist : p.node < g.nodes.size) (limit : p.index < 1024)
      (first : g.pads.find? p = none) (free : g.owners.find? l = none) :
    Step g { g with
      owners := g.owners.insert l (.pad p), pads := g.pads.insert p (some l) }

/-- Any number of changes of a graph. -/
def Grows (g g' : Graph) : Prop := Relation.ReflTransGen Step g g'

/-- All that is in one graph is in another, unchanged. -/
structure Within (g g' : Graph) : Prop where
  /-- It is the same graph. -/
  id : g'.id = g.id
  /-- The nodes stand where they stood. -/
  nodes : g.nodes.toList <+: g'.nodes.toList
  /-- A pad that was asked for keeps its label, or stays without one. -/
  pads : ∀ {p label}, g.pads.find? p = some label → g'.pads.find? p = some label
  /-- A label keeps its owner. -/
  owners : ∀ {l e}, g.owners.find? l = some e → g'.owners.find? l = some e

namespace Within

theorem refl (g : Graph) : g.Within g := ⟨rfl, List.prefix_rfl, fun h => h, fun h => h⟩

theorem trans {g g' g'' : Graph} (h : g.Within g') (hn : g'.Within g'') : g.Within g'' :=
  ⟨hn.id.trans h.id, h.nodes.trans hn.nodes, fun e => hn.pads (h.pads e),
    fun e => hn.owners (h.owners e)⟩

/-- No node is lost. -/
theorem size_le {g g' : Graph} (h : g.Within g') : g.nodes.size ≤ g'.nodes.size := by
  simpa using h.nodes.length_le

/-- A node keeps its place. -/
theorem node? {g g' : Graph} (h : g.Within g') {i : Nat} {n : Node} (hn : g.node? i = some n) :
    g'.node? i = some n := by
  have hget : g.nodes.toList[i]? = some n := by simpa [Graph.node?] using hn
  obtain ⟨hi, rfl⟩ := List.getElem?_eq_some_iff.mp hget
  have hkept := List.prefix_iff_getElem?.mp h.nodes i hi
  simpa [Graph.node?] using hkept

/-- What a graph knows stays known. -/
theorem knows {g g' : Graph} (h : g.Within g') {e : Endpoint} (he : g.Knows e) : g'.Knows e := by
  cases e with
  | external l => exact h.owners he
  | pad p =>
    obtain ⟨label, hlabel⟩ := he
    exact ⟨label, h.pads hlabel⟩

end Within

/-- One change keeps all that is there. -/
theorem Step.within {g g' : Graph} (h : Step g g') : g.Within g' := by
  cases h with
  | source free =>
    exact ⟨rfl, List.prefix_rfl, fun h => h, SortedMap.find?_insert_of_some free⟩
  | node => exact ⟨rfl, by simp, fun h => h, fun h => h⟩
  | pad exist limit first =>
    exact ⟨rfl, List.prefix_rfl, SortedMap.find?_insert_of_some first, fun h => h⟩
  | namedPad exist limit first free =>
    exact ⟨rfl, List.prefix_rfl, SortedMap.find?_insert_of_some first,
      SortedMap.find?_insert_of_some free⟩

namespace WellFormed

variable {g g' : Graph}

/-- A node reads what the graph knows. -/
theorem knows_input (hg : g.WellFormed) {i : Nat} {n : Node} {e : Endpoint}
    (hn : g.node? i = some n) (he : e ∈ n.inputs) : g.Knows e := by
  cases e with
  | external l => exact hg.reads_external hn he
  | pad p => exact (hg.reads_pad hn he).2

/-- Where the nodes stay the same, only pads and labels are left to be looked at. -/
theorem of_nodes_eq (hg : g.WellFormed) (hin : g.Within g') (hnodes : g'.nodes = g.nodes)
    (pad_place : ∀ {p label}, g'.pads.find? p = some label →
      p.node < g'.nodes.size ∧ p.index < 1024)
    (owner_pad : ∀ {l p}, g'.owners.find? l = some (.pad p) ↔ g'.pads.find? p = some (some l))
    (owner_external : ∀ {l m}, g'.owners.find? l = some (.external m) → m = l) :
    g'.WellFormed := by
  have hnode : ∀ {i n}, g'.node? i = some n → g.node? i = some n := by
    intro i n h
    simpa [node?, hnodes] using h
  exact {
    room := by simpa [hnodes] using hg.room
    node_id := fun h => hg.node_id (hnode h)
    node_name := fun h => hg.node_name (hnode h)
    node_arity := fun h => hg.node_arity (hnode h)
    reads_pad := fun h hp =>
      ⟨(hg.reads_pad (hnode h) hp).1, hin.knows (hg.knows_input (hnode h) hp)⟩
    reads_external := fun h hl => hin.knows (hg.knows_input (hnode h) hl)
    pad_place, owner_pad, owner_external }

/-- Naming an endpoint outside keeps a graph well formed: the label was free, so no pad has it. -/
theorem insert_source (hg : g.WellFormed) {l : Label} (free : g.owners.find? l = none) :
    ({ g with owners := g.owners.insert l (.external l) } : Graph).WellFormed := by
  refine hg.of_nodes_eq (Step.source free).within rfl hg.pad_place ?_ ?_
  · intro m p
    by_cases hm : m = l
    · subst hm
      have hno : g.pads.find? p ≠ some (some m) := by
        intro h
        simp [hg.owner_pad.mpr h] at free
      simp [hno]
    · simpa [SortedMap.find?_insert, hm] using hg.owner_pad
  · intro m m' h
    by_cases hm : m = l
    · subst hm
      simpa using h.symm
    · exact hg.owner_external (by simpa [SortedMap.find?_insert, hm] using h)

/-- Adding a node that reads what the graph knows keeps a graph well formed: pads that were asked
for belong to nodes before it. -/
theorem push_node (hg : g.WellFormed) {n : Node} (id : n.id = g.nodes.size)
    (room : g.nodes.size < 2 ^ 32) (name : Node.IsFilterName n.filter)
    (arity : n.arity.accepts n.inputs.length = true) (inputs : ∀ e ∈ n.inputs, g.Knows e) :
    ({ g with nodes := g.nodes.push n } : Graph).WellFormed := by
  have hnode : ∀ {i m}, (g.nodes.push n)[i]? = some m →
      (i = g.nodes.size ∧ m = n) ∨ g.node? i = some m := by
    intro i m h
    rw [Array.getElem?_push] at h
    split at h
    · next hi => exact .inl ⟨hi, by simpa using h.symm⟩
    · exact .inr h
  constructor
  case room =>
    simp only [Array.size_push]
    exact room
  case node_id =>
    intro i m h
    rcases hnode h with ⟨rfl, rfl⟩ | h
    · exact id
    · exact hg.node_id h
  case node_name =>
    intro i m h
    rcases hnode h with ⟨-, rfl⟩ | h
    · exact name
    · exact hg.node_name h
  case node_arity =>
    intro i m h
    rcases hnode h with ⟨-, rfl⟩ | h
    · exact arity
    · exact hg.node_arity h
  case reads_pad =>
    intro i m p h hp
    rcases hnode h with ⟨rfl, rfl⟩ | h
    · obtain ⟨label, hlabel⟩ := inputs _ hp
      exact ⟨(hg.pad_place hlabel).1, label, hlabel⟩
    · exact hg.reads_pad h hp
  case reads_external =>
    intro i m l h hl
    rcases hnode h with ⟨rfl, rfl⟩ | h
    · exact inputs _ hl
    · exact hg.reads_external h hl
  case pad_place =>
    intro p label h
    have := hg.pad_place h
    simp only [Array.size_push]
    omega
  case owner_pad => exact hg.owner_pad
  case owner_external => exact hg.owner_external

/-- Asking for a pad without a label keeps a graph well formed: the pad had no label before. -/
theorem insert_pad (hg : g.WellFormed) {p : Pad} (exist : p.node < g.nodes.size)
    (limit : p.index < 1024) (first : g.pads.find? p = none) :
    ({ g with pads := g.pads.insert p none } : Graph).WellFormed := by
  refine hg.of_nodes_eq (Step.pad exist limit first).within rfl ?_ ?_ hg.owner_external
  · intro q label h
    by_cases hq : q = p
    · subst hq
      exact ⟨exist, limit⟩
    · exact hg.pad_place (by simpa [SortedMap.find?_insert, hq] using h)
  · intro l q
    by_cases hq : q = p
    · subst hq
      have hno : g.owners.find? l ≠ some (.pad q) := by
        intro h
        simp [hg.owner_pad.mp h] at first
      simp [hno]
    · simpa [SortedMap.find?_insert, hq] using hg.owner_pad

/-- Asking for a pad under a free label keeps a graph well formed: the label and the pad come to
name each other, and neither had a partner before. -/
theorem insert_namedPad (hg : g.WellFormed) {p : Pad} {l : Label}
    (exist : p.node < g.nodes.size) (limit : p.index < 1024)
    (first : g.pads.find? p = none) (free : g.owners.find? l = none) :
    ({ g with owners := g.owners.insert l (.pad p), pads := g.pads.insert p (some l) } :
      Graph).WellFormed := by
  refine hg.of_nodes_eq (Step.namedPad exist limit first free).within rfl ?_ ?_ ?_
  · intro q label h
    by_cases hq : q = p
    · subst hq
      exact ⟨exist, limit⟩
    · exact hg.pad_place (by simpa [SortedMap.find?_insert, hq] using h)
  · intro m q
    have hpad : g.pads.find? p ≠ some (some m) := by simp [first]
    have hfree : g.owners.find? l ≠ some (.pad q) := by simp [free]
    by_cases hm : m = l <;> by_cases hq : q = p
    · simp [hm, hq]
    · subst hm
      rw [Ne, hg.owner_pad] at hfree
      simp [SortedMap.find?_insert, hq, Ne.symm hq, hfree]
    · subst hq
      rw [Ne, ← hg.owner_pad] at hpad
      simp [SortedMap.find?_insert, hm, Ne.symm hm, hpad]
    · simpa [SortedMap.find?_insert, hm, hq] using hg.owner_pad
  · intro m m' h
    by_cases hm : m = l
    · simp [hm] at h
    · exact hg.owner_external (by simpa [SortedMap.find?_insert, hm] using h)

/-- One change keeps a graph well formed. -/
theorem step (hg : g.WellFormed) (h : Step g g') : g'.WellFormed := by
  cases h with
  | source free => exact hg.insert_source free
  | node id room name arity inputs => exact hg.push_node id room name arity inputs
  | pad exist limit first => exact hg.insert_pad exist limit first
  | namedPad exist limit first free => exact hg.insert_namedPad exist limit first free

end WellFormed

namespace Grows

variable {g g' g'' : Graph}

theorem refl (g : Graph) : g.Grows g := Relation.ReflTransGen.refl

theorem trans (h : g.Grows g') (h' : g'.Grows g'') : g.Grows g'' :=
  Relation.ReflTransGen.trans h h'

theorem single (h : Step g g') : g.Grows g' := Relation.ReflTransGen.single h

/-- Growing keeps a graph well formed. -/
theorem wellFormed (h : g.Grows g') (hg : g.WellFormed) : g'.WellFormed := by
  induction h with
  | refl => exact hg
  | tail _ hstep ih => exact ih.step hstep

/-- Growing keeps all that is there. -/
theorem within (h : g.Grows g') : g.Within g' := by
  induction h with
  | refl => exact .refl g
  | tail _ hstep ih => exact ih.trans hstep.within

end Grows

end Graph

end MediaGraph
