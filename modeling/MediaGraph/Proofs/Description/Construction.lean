import MediaGraph.Description.Assembly
import MediaGraph.Proofs.Description.References
import MediaGraph.Proofs.Graph.Refusal

/-!
# What a description asks for

The nodes of a description are built in its order behind those that the graph has already, so it is
settled beforehand which endpoint a reference means. Building is then nothing but a row of requests
with nodes between them, and it is accepted if these are.

## Main definitions

* `MediaGraph.Description.Means` — the endpoint that a reference means.
* `MediaGraph.Description.requests` — all that a description asks a graph for, in order.
* `MediaGraph.Description.NodeEntry.Buildable` — a node passes the checks apart from its requests.
* `MediaGraph.Description.Scope.Fits` — a scope has the sources and some first nodes.

## Main results

* `MediaGraph.Description.build_gives` — when a description is built, and what comes out of it.
-/

set_option autoImplicit false

namespace MediaGraph.Description

variable {d : Description} {first : Nat}

/-! ## The meaning of references -/

/-- Whether a reference means an endpoint, if the nodes of the description are numbered from `first`
on. The label of a source means that stream from outside; any other text means the pad that it
names. -/
inductive Means (d : Description) (first : Nat) (r : String) : Endpoint → Prop where
  /-- A stream from outside. -/
  | source {l : Label} (mem : l ∈ d.sources) (text : l.text = r) : Means d first r (.external l)
  /-- A pad of a node. -/
  | pad {ref : Reference} {k : Nat} {n : NodeEntry} (other : ∀ l ∈ d.sources, l.text ≠ r)
      (names : Names r ref) (node : d.nodes[k]? = some n) (id : n.id = ref.id) :
      Means d first r (.pad ⟨first + k, ref.pad⟩)

/-- The place of the node with a name. -/
def place (d : Description) (id : String) : Nat := (d.nodes.map NodeEntry.id).idxOf id

/-- The endpoint that a reference means. What it is for a text that means nothing plays no role. -/
def endpoint (d : Description) (first : Nat) (r : String) : Endpoint :=
  match d.sources.find? (fun l => l.text = r), readReference r with
  | some l, _ => .external l
  | none, .ok ref => .pad ⟨first + d.place ref.id, ref.pad⟩
  | none, .error _ => .pad ⟨first, 0⟩

lemma place_eq (hd : d.WellNamed) {k : Nat} {n : NodeEntry} (hn : d.nodes[k]? = some n) :
    d.place n.id = k := by
  obtain ⟨hk, rfl⟩ := List.getElem?_eq_some_iff.mp hn
  have hk' : k < (d.nodes.map NodeEntry.id).length := by simpa using hk
  simpa [place] using hd.distinct.idxOf_getElem k hk'

lemma find?_sources_eq_some {l : Label} (hl : l ∈ d.sources) :
    (d.sources.find? fun m => m.text = l.text) = some l := by
  have hsome : (d.sources.find? fun m => m.text = l.text).isSome :=
    List.find?_isSome.mpr ⟨l, hl, by simp⟩
  obtain ⟨m, hm⟩ := Option.isSome_iff_exists.mp hsome
  obtain rfl : m = l := Label.text_injective (by simpa using List.find?_some hm)
  exact hm

lemma find?_sources_eq_none {r : String} (other : ∀ l ∈ d.sources, l.text ≠ r) :
    (d.sources.find? fun l => l.text = r) = none := by
  simpa [List.find?_eq_none] using other

lemma endpoint_source {l : Label} (hl : l ∈ d.sources) : d.endpoint first l.text = .external l := by
  simp [endpoint, find?_sources_eq_some hl]

lemma endpoint_pad {r : String} {ref : Reference} (other : ∀ l ∈ d.sources, l.text ≠ r)
    (names : Names r ref) : d.endpoint first r = .pad ⟨first + d.place ref.id, ref.pad⟩ := by
  simp [endpoint, find?_sources_eq_none other, readReference_eq_ok_iff.mpr names]

/-- A reference means at most one endpoint. -/
lemma Means.eq_endpoint (hd : d.WellNamed) {r : String} {e : Endpoint} (h : d.Means first r e) :
    e = d.endpoint first r := by
  cases h with
  | source mem text => rw [← text, endpoint_source mem]
  | pad other names node id => rw [endpoint_pad other names, ← id, place_eq hd node]

/-- A reference that is in order means an endpoint. -/
lemma means_endpoint (hd : d.WellNamed) {r : String} (hr : Refers d.sources d.nodes r) :
    d.Means first r (d.endpoint first r) := by
  by_cases hsource : ∃ l ∈ d.sources, l.text = r
  · obtain ⟨l, hl, rfl⟩ := hsource
    rw [endpoint_source hl]
    exact .source hl rfl
  · obtain ⟨ref, names, n, hn, hid⟩ := hr.resolve_left hsource
    have other : ∀ l ∈ d.sources, l.text ≠ r := fun l hl htext => hsource ⟨l, hl, htext⟩
    obtain ⟨k, hk⟩ := List.getElem?_of_mem hn
    rw [endpoint_pad other names, ← hid, place_eq hd hk]
    exact .pad other names hk hid

/-! ## The requests of a description -/

/-- What a graph is asked for when a reference is read. -/
def asks (d : Description) (first : Nat) (r : String) : List Request :=
  match d.endpoint first r with
  | .external _ => []
  | .pad p => [.pad p none]

/-- What a graph is asked for in building the node with the number `k`. -/
def nodeRequests (d : Description) (first : Nat) (n : NodeEntry) (k : Nat) : List Request :=
  n.inputs.flatMap (d.asks first) ++ n.outputs.map fun o => .pad ⟨k, o.pad⟩ o.label

/-- What a graph is asked for in building nodes with the numbers from `k` on. -/
def allNodeRequests (d : Description) (first : Nat) (ns : List NodeEntry) (k : Nat) :
    List Request :=
  (ns.zipIdx k).flatMap fun x => d.nodeRequests first x.1 x.2

/-- What a graph is asked for in building a description. -/
def requests (d : Description) (first : Nat) : List Request :=
  d.sources.map (fun l => .source l.text) ++ d.allNodeRequests first d.nodes first ++
    d.outputs.flatMap (d.asks first)

/-- The node with the number `k`. -/
def built (d : Description) (first : Nat) (n : NodeEntry) (k : Nat) : Node :=
  ⟨k, n.filter, n.inputs.map (d.endpoint first), n.requiredArity, ⟨n.args, n.options⟩⟩

/-- The nodes with the numbers from `k` on. -/
def allBuilt (d : Description) (first : Nat) (ns : List NodeEntry) (k : Nat) : List Node :=
  (ns.zipIdx k).map fun x => d.built first x.1 x.2

/-- The stream that a reference means, as one of the graph with the number `id`. -/
def stream (d : Description) (first id : Nat) (r : String) : Stream :=
  ⟨id, d.endpoint first r, .filterable⟩

/-- Whether a node passes the checks of its name, its arity and its number. -/
structure NodeEntry.Buildable (n : NodeEntry) (k : Nat) : Prop where
  /-- There is a number left. -/
  room : k < 2 ^ 32
  /-- The name of the filter can stand in an expression. -/
  name : Node.IsFilterName n.filter
  /-- The node has as many inputs as it asks for. -/
  arity : n.requiredArity.accepts n.inputs.length = true

/-! ## Building -/

variable {g : Graph} {scope : Scope} {before : List NodeEntry}

/-- Whether a scope has the sources of a description, as streams of the graph with the number `id`,
and its first nodes. -/
structure Scope.Fits (scope : Scope) (d : Description) (first id : Nat)
    (before : List NodeEntry) : Prop where
  /-- Sources are found by their labels. -/
  sources : ∀ r, scope.sources.lookup r =
    (d.sources.find? fun l => l.text = r).map fun l => ⟨id, .external l, .filterable⟩
  /-- Nodes are found by their names. -/
  nodes : ∀ n ∈ before, scope.nodes.lookup n.id = some ⟨id, first + d.place n.id⟩

open Edit

lemma lookup_sources (ls : List Label) (id : Nat) (r : String) :
    (ls.map fun l => (l.text, (⟨id, .external l, .filterable⟩ : Stream))).lookup r =
      (ls.find? fun l => l.text = r).map fun l => ⟨id, .external l, .filterable⟩ := by
  induction ls with
  | nil => rfl
  | cons l rest ih =>
    rw [List.map_cons, List.find?_cons]
    by_cases h : l.text = r
    · subst h
      simp
    · have hne : (r == l.text) = false := by simpa using Ne.symm h
      simp [List.lookup_cons, h, hne, ih]

/-- Reading a reference asks for the pad that it means. -/
lemma resolve_gives (hfits : scope.Fits d first g.id before) {r : String}
    (hr : Refers d.sources before r) :
    Gives g (scope.resolve r) (g.GrantsAll (d.asks first r)) (d.stream first g.id r)
      (g.servedAll (d.asks first r)) := by
  unfold Scope.resolve stream asks
  rw [hfits.sources]
  by_cases hsource : ∃ l ∈ d.sources, l.text = r
  · obtain ⟨l, hl, rfl⟩ := hsource
    rw [find?_sources_eq_some hl, endpoint_source hl]
    exact gives_pure _
  · obtain ⟨ref, names, n, hn, hid⟩ := hr.resolve_left hsource
    have other : ∀ l ∈ d.sources, l.text ≠ r := fun l hl htext => hsource ⟨l, hl, htext⟩
    rw [find?_sources_eq_none other, endpoint_pad other names]
    refine gives_check_bind (readReference_eq_ok_iff.mpr names) ?_
    rw [← hid, hfits.nodes n hn]
    exact (request_gives _ _ none).congr (by simp [Graph.GrantsAll])

/-- Reading references one after the other. -/
lemma resolveAll_gives (hfits : scope.Fits d first g.id before) {rs : List String}
    (hrs : ∀ r ∈ rs, Refers d.sources before r) :
    Gives g (scope.resolveAll rs) (g.GrantsAll (rs.flatMap (d.asks first)))
      (rs.map (d.stream first g.id)) (g.servedAll (rs.flatMap (d.asks first))) := by
  induction rs generalizing g with
  | nil => exact gives_pure []
  | cons r rest ih =>
    obtain ⟨hr, hrest⟩ := List.forall_mem_cons.mp hrs
    have hone := resolve_gives hfits hr
    have hall := ih (g := g.servedAll (d.asks first r)) (by simpa using hfits) hrest
    simp only [Graph.servedAll_id] at hall
    rw [List.flatMap_cons, Graph.servedAll_append]
    exact (hone.bind (hall.bind_pure _)).congr Graph.grantsAll_append.symm

/-- Asking for sources one after the other. -/
lemma addSources_gives (ls : List Label) :
    Gives g (addSources ls) (g.GrantsAll (ls.map fun l => .source l.text))
      (ls.map fun l => (l.text, ⟨g.id, .external l, .filterable⟩))
      (g.servedAll (ls.map fun l => .source l.text)) := by
  induction ls generalizing g with
  | nil => exact gives_pure []
  | cons l rest ih =>
    have hall := ih (g := g.served (.source l.text))
    simp only [Graph.served_id] at hall
    exact (source_gives l).bind (hall.bind_pure _)

/-- Asking a node for pads one after the other. -/
lemma addOutputs_gives (node : Nat) (os : List OutputEntry) :
    Gives g (addOutputs node os) (g.GrantsAll (os.map fun o => .pad ⟨node, o.pad⟩ o.label)) ()
      (g.servedAll (os.map fun o => .pad ⟨node, o.pad⟩ o.label)) := by
  induction os generalizing g with
  | nil => exact gives_pure ()
  | cons o rest ih => exact (request_gives node o.pad o.label).bind ih

/-- Building one node. -/
lemma addNode_gives (hfits : scope.Fits d first g.id before) {n : NodeEntry}
    (hinputs : ∀ r ∈ n.inputs, Refers d.sources before r) :
    Gives g (addNode scope n)
      (g.GrantsAll (d.nodeRequests first n g.nodes.size) ∧ n.Buildable g.nodes.size)
      ⟨g.id, g.nodes.size⟩
      ((g.servedAll (d.nodeRequests first n g.nodes.size)).append
        [d.built first n g.nodes.size]) := by
  have hadds : Gives (g.servedAll (n.inputs.flatMap (d.asks first)))
      (Edit.addNode (n.inputs.map (d.stream first g.id)) n.filter n.requiredArity
        ⟨n.args, n.options⟩)
      (n.Buildable g.nodes.size) ⟨g.id, g.nodes.size⟩
      ((g.servedAll (n.inputs.flatMap (d.asks first))).append [d.built first n g.nodes.size]) := by
    have hnode := Edit.addNode_gives (g := g.servedAll (n.inputs.flatMap (d.asks first)))
      (n.inputs.map (d.endpoint first)) n.filter n.requiredArity ⟨n.args, n.options⟩
    simp only [Graph.servedAll_id, Graph.servedAll_nodes, List.map_map, List.length_map] at hnode
    exact hnode.congr ⟨fun ⟨room, name, arity⟩ => ⟨room, name, arity⟩,
      fun ⟨room, name, arity⟩ => ⟨room, name, arity⟩⟩
  unfold addNode nodeRequests
  rw [Graph.servedAll_append, ← Graph.servedAll_of_append]
  refine ((resolveAll_gives hfits hinputs).bind
    (hadds.bind ((addOutputs_gives _ _).bind_pure _))).congr ?_
  rw [Graph.grantsAll_append, Graph.grantsAll_of_append]
  tauto

/-- A scope has a node that was added under a name of its own. -/
lemma Scope.Fits.cons (hd : d.WellNamed) {id : Nat} {n : NodeEntry} {after : List NodeEntry}
    (hfits : scope.Fits d first id before) (hsplit : d.nodes = before ++ n :: after) :
    Scope.Fits ⟨scope.sources, (n.id, ⟨id, first + before.length⟩) :: scope.nodes⟩ d first id
      (before ++ [n]) where
  sources := hfits.sources
  nodes m hm := by
    have hplace : d.place n.id = before.length := place_eq hd (by simp [hsplit])
    rcases List.mem_append.mp hm with hm | hm
    · have hne : m.id ≠ n.id := ((wellNamed_iff.mp hd).1 before n after hsplit).fresh m hm
      have hneq : (m.id == n.id) = false := by simpa using hne
      rw [List.lookup_cons, hneq]
      exact hfits.nodes m hm
    · obtain rfl := List.mem_singleton.mp hm
      simp [hplace]

/-- Building nodes one after the other, behind some that were built already. -/
lemma addNodes_gives (hd : d.WellNamed) {rest : List NodeEntry}
    (hsplit : d.nodes = before ++ rest) (hsize : g.nodes.size = first + before.length)
    (hfits : scope.Fits d first g.id before) :
    ∃ scope' : Scope, scope'.Fits d first g.id d.nodes ∧
      Gives g (addNodes scope rest)
        (g.GrantsAll (d.allNodeRequests first rest g.nodes.size) ∧
          ∀ x ∈ rest.zipIdx g.nodes.size, x.1.Buildable x.2)
        scope'
        ((g.servedAll (d.allNodeRequests first rest g.nodes.size)).append
          (d.allBuilt first rest g.nodes.size)) := by
  unfold allNodeRequests allBuilt
  induction rest generalizing g scope before with
  | nil =>
    obtain rfl : before = d.nodes := by simp [hsplit]
    refine ⟨scope, hfits, ?_⟩
    simpa [Graph.GrantsAll, Graph.servedAll, addNodes] using gives_pure (g := g) scope
  | cons n rest ih =>
    have hone := addNode_gives hfits (hd.inputs before n rest hsplit)
    have hsplit' : d.nodes = (before ++ [n]) ++ rest := by simpa using hsplit
    have hfits' := hfits.cons hd hsplit
    rw [← hsize] at hfits'
    obtain ⟨scope', hend, hrest⟩ := ih
      (g := (g.servedAll (d.nodeRequests first n g.nodes.size)).append
        [d.built first n g.nodes.size])
      hsplit' (by simp [hsize, Nat.add_assoc]) (by simpa using hfits')
    refine ⟨scope', by simpa using hend, ?_⟩
    simp only [Graph.size_append, Graph.servedAll_nodes, List.length_singleton,
      Graph.grantsAll_of_append, Graph.servedAll_of_append, Graph.append_append] at hrest
    simp only [List.zipIdx_cons, List.flatMap_cons, List.map_cons, Graph.servedAll_append,
      Graph.grantsAll_append, List.forall_mem_cons]
    unfold addNodes
    refine (hone.bind hrest).congr ?_
    tauto

/-- Before the first node is built, the scope has the sources. -/
lemma fits_sources (d : Description) (first id : Nat) :
    Scope.Fits ⟨d.sources.map fun l => (l.text, ⟨id, .external l, .filterable⟩), []⟩
      d first id [] where
  sources r := lookup_sources d.sources id r
  nodes := by simp

/-- **A description whose names and references are in order is built** exactly if its requests are
granted in their order and its nodes pass their checks. The graph is then the one that the requests
lead to, with the nodes behind those it had. -/
theorem build_gives (hd : d.WellNamed) :
    Gives g d.build
      (g.GrantsAll (d.requests g.nodes.size) ∧
        ∀ x ∈ d.nodes.zipIdx g.nodes.size, x.1.Buildable x.2)
      (d.outputs.map (d.stream g.nodes.size g.id))
      ((g.servedAll (d.requests g.nodes.size)).append
        (d.allBuilt g.nodes.size d.nodes g.nodes.size)) := by
  have hsources := addSources_gives (g := g) d.sources
  obtain ⟨scope, hfits, hnodes⟩ := addNodes_gives hd (List.nil_append d.nodes).symm
    (g := g.servedAll (d.sources.map fun l => .source l.text)) (by simp)
    (fits_sources d g.nodes.size _)
  simp only [Graph.servedAll_id, Graph.servedAll_nodes] at hfits hnodes
  have houtputs := resolveAll_gives (g :=
    ((g.servedAll (d.sources.map fun l => .source l.text)).servedAll
      (d.allNodeRequests g.nodes.size d.nodes g.nodes.size)).append
      (d.allBuilt g.nodes.size d.nodes g.nodes.size)) (by simpa using hfits) hd.outputs
  simp only [Graph.append_id, Graph.servedAll_id] at houtputs
  rw [requests, Graph.servedAll_append, Graph.servedAll_append, ← Graph.servedAll_of_append]
  refine (gives_check_bind (validate_eq_ok_iff.mpr hd)
    (hsources.bind (hnodes.bind houtputs))).congr ?_
  rw [Graph.grantsAll_append, Graph.grantsAll_append, Graph.grantsAll_of_append,
    Graph.servedAll_append]
  tauto

/-! ## The requests one by one -/

/-- All references of a description. -/
def references (d : Description) : List String := d.nodes.flatMap NodeEntry.inputs ++ d.outputs

/-- Whether a pad is listed with its node, under a text or under none. -/
def Lists (d : Description) (first : Nat) (p : Pad) (text : Option String) : Prop :=
  ∃ k n o, d.nodes[k]? = some n ∧ o ∈ n.outputs ∧ p = ⟨first + k, o.pad⟩ ∧ o.label = text

lemma mem_asks_iff {r : String} {q : Request} :
    q ∈ d.asks first r ↔ ∃ p, d.endpoint first r = .pad p ∧ q = .pad p none := by
  unfold asks
  cases d.endpoint first r <;> simp

lemma mem_zipIdx_iff {α : Type} {l : List α} {first i : Nat} {a : α} :
    (a, i) ∈ l.zipIdx first ↔ ∃ k, l[k]? = some a ∧ i = first + k := by
  rw [List.mem_zipIdx_iff_le_and_getElem?_sub]
  constructor
  · rintro ⟨hle, hget⟩
    exact ⟨i - first, hget, by omega⟩
  · rintro ⟨k, hget, rfl⟩
    exact ⟨by omega, by simpa using hget⟩

lemma mem_nodeRequests_iff {n : NodeEntry} {k : Nat} {q : Request} :
    q ∈ d.nodeRequests first n k ↔ (∃ r ∈ n.inputs, q ∈ d.asks first r) ∨
      ∃ o ∈ n.outputs, q = .pad ⟨k, o.pad⟩ o.label := by
  simp [nodeRequests, eq_comm]

lemma source_mem_requests_iff {t : String} :
    .source t ∈ d.requests first ↔ ∃ l ∈ d.sources, l.text = t := by
  simp [requests, allNodeRequests, mem_nodeRequests_iff, mem_asks_iff]

/-- The pads that are asked for are those that references mean, without labels, and those that are
listed. -/
lemma pad_mem_requests_iff {p : Pad} {text : Option String} :
    .pad p text ∈ d.requests first ↔
      (text = none ∧ ∃ r ∈ d.references, d.endpoint first r = .pad p) ∨ d.Lists first p text := by
  simp only [requests, allNodeRequests, List.mem_append, List.mem_map, List.mem_flatMap,
    Prod.exists, mem_zipIdx_iff, mem_nodeRequests_iff, mem_asks_iff, reduceCtorEq, and_false,
    exists_false, false_or, references, Lists, Request.pad.injEq]
  constructor
  · rintro (⟨n, _, ⟨k, hn, rfl⟩, ⟨r, hr, p', hp, rfl, rfl⟩ | ⟨o, ho, rfl, rfl⟩⟩ |
      ⟨r, hr, p', hp, rfl, rfl⟩)
    · exact .inl ⟨rfl, r, .inl ⟨n, List.mem_of_getElem? hn, hr⟩, hp⟩
    · exact .inr ⟨k, n, o, hn, ho, rfl, rfl⟩
    · exact .inl ⟨rfl, r, .inr hr, hp⟩
  · rintro (⟨rfl, r, ⟨n, hn, hr⟩ | hr, hp⟩ | ⟨k, n, o, hn, ho, rfl, rfl⟩)
    · obtain ⟨k, hk⟩ := List.getElem?_of_mem hn
      exact .inl ⟨n, _, ⟨k, hk, rfl⟩, .inl ⟨r, hr, p, hp, rfl, rfl⟩⟩
    · exact .inr ⟨r, hr, p, hp, rfl, rfl⟩
    · exact .inl ⟨n, _, ⟨k, hn, rfl⟩, .inr ⟨o, ho, rfl, rfl⟩⟩

end MediaGraph.Description
