import MediaGraph.Proofs.Description.Elaboration

/-!
# Which descriptions can be built

A description can be built on a new graph under conditions that are read off its text. Apart from
names, limits and numbers of inputs they concern the labels of pads: nodes refer to pads without
labels, but only to pads of nodes in front of them, so that the list of a node comes first and its
first entry for a pad settles the label.

## Main definitions

* `MediaGraph.Description.MayLabel` — an entry may give a label to a pad.
* `MediaGraph.Description.Acceptable` — a description can be built.

## Main results

* `MediaGraph.Description.find?_requests` — the first request for a listed pad.
* `MediaGraph.Description.build_isOk_iff` — what is acceptable is built, and nothing else.
-/

set_option autoImplicit false

namespace MediaGraph.Description

/-- Whether an entry in the list of a node may give a label to its pad. -/
structure MayLabel (d : Description) (n : NodeEntry) (o : OutputEntry) (t : String) : Prop where
  /-- The text is a label. -/
  sound : Label.defect? t = none
  /-- It is not the label of a source. -/
  source : ∀ l ∈ d.sources, l.text ≠ t
  /-- The first entry for the pad in the list has the same label. -/
  first : (n.outputs.find? fun o' => o'.pad = o.pad).bind OutputEntry.label = some t
  /-- No other pad is listed under it. -/
  unique : ∀ n' ∈ d.nodes, ∀ o' ∈ n'.outputs, o'.label = some t → n'.id = n.id ∧ o'.pad = o.pad

/-- Whether a description can be built on a new graph. -/
structure Acceptable (d : Description) : Prop where
  /-- Its names and references are in order. -/
  wellNamed : d.WellNamed
  /-- Pads that are referred to are below the limit. -/
  referred : ∀ r ∈ d.references, (∀ l ∈ d.sources, l.text ≠ r) → ∀ ref, Names r ref → ref.pad < 1024
  /-- There are no more nodes than a graph can hold. -/
  room : d.nodes.length ≤ 2 ^ 32
  /-- Filters have names that can stand in an expression. -/
  name : ∀ n ∈ d.nodes, Node.IsFilterName n.filter
  /-- An arity that is given is the number of inputs. -/
  arity : ∀ n ∈ d.nodes, ∀ count, n.arity = some count → count = n.inputs.length
  /-- Pads that are listed are below the limit. -/
  listed : ∀ n ∈ d.nodes, ∀ o ∈ n.outputs, o.pad < 1024
  /-- Pads are listed under labels that they may have. -/
  label : ∀ n ∈ d.nodes, ∀ o ∈ n.outputs, ∀ t, o.label = some t → d.MayLabel n o t

variable {d : Description} {first : Nat}

/-! ## The order of requests -/

lemma exists_split_of_getElem? {α : Type} {l : List α} {k : Nat} {a : α} (h : l[k]? = some a) :
    ∃ front back, l = front ++ a :: back ∧ front.length = k := by
  obtain ⟨hk, rfl⟩ := List.getElem?_eq_some_iff.mp h
  exact ⟨l.take k, l.drop (k + 1), by simp, by simp [hk.le]⟩

/-- A reference to some first nodes asks for a pad of one of them. -/
lemma node_lt_of_mem_asks (hd : d.WellNamed) {before rest : List NodeEntry}
    (hsplit : d.nodes = before ++ rest) {r : String} (hr : Refers d.sources before r) {p : Pad}
    {text : Option String} (hp : .pad p text ∈ d.asks first r) :
    p.node < first + before.length := by
  obtain ⟨p', hend, heq⟩ := mem_asks_iff.mp hp
  obtain ⟨rfl, rfl⟩ := Request.pad.inj heq
  by_cases hsource : ∃ l ∈ d.sources, l.text = r
  · obtain ⟨l, hl, rfl⟩ := hsource
    simp [endpoint_source hl] at hend
  · obtain ⟨ref, names, n, hn, hid⟩ := hr.resolve_left hsource
    have other : ∀ l ∈ d.sources, l.text ≠ r := fun l hl htext => hsource ⟨l, hl, htext⟩
    obtain ⟨k, hk⟩ := List.getElem?_of_mem hn
    have hlt : k < before.length := (List.getElem?_eq_some_iff.mp hk).1
    have hplace : d.place n.id = k :=
      place_eq hd (by rw [hsplit, List.getElem?_append_left hlt, hk])
    rw [endpoint_pad other names, ← hid, hplace] at hend
    obtain rfl := Endpoint.pad.inj hend
    exact Nat.add_lt_add_left hlt first

/-- Before the list of a node is read, none of its pads is asked for, for references lead to nodes
in front. -/
lemma node_lt_of_mem_front (hd : d.WellNamed) {before after : List NodeEntry} {n : NodeEntry}
    (hsplit : d.nodes = before ++ n :: after) {p : Pad} {text : Option String}
    (hp : .pad p text ∈ d.sources.map (fun l => .source l.text) ++
      d.allNodeRequests first before first ++ n.inputs.flatMap (d.asks first)) :
    p.node < first + before.length := by
  simp only [allNodeRequests, List.mem_append, List.mem_map, reduceCtorEq, and_false,
    exists_false, false_or, List.mem_flatMap, Prod.exists, mem_zipIdx_iff,
    mem_nodeRequests_iff] at hp
  rcases hp with ⟨m, j, ⟨k, hm, rfl⟩, ⟨r, hr, hp⟩ | ⟨o, -, hp⟩⟩ | ⟨r, hr, hp⟩
  · obtain ⟨front, back, rfl, rfl⟩ := exists_split_of_getElem? hm
    rw [List.append_assoc] at hsplit
    have hlt := node_lt_of_mem_asks hd hsplit (hd.inputs _ _ _ hsplit r hr) hp
    simp only [List.length_append, List.length_cons]
    omega
  · obtain ⟨rfl, -⟩ := Request.pad.inj hp
    exact Nat.add_lt_add_left (List.getElem?_eq_some_iff.mp hm).1 first
  · exact node_lt_of_mem_asks hd hsplit (hd.inputs _ _ _ hsplit r hr) hp

/-- The first request for a listed pad comes from the first entry for it in the list of its node. -/
lemma find?_requests (hd : d.WellNamed) {k : Nat} {n : NodeEntry} (hn : d.nodes[k]? = some n)
    {o : OutputEntry} (ho : o ∈ n.outputs) :
    (d.requests first).find? (fun q => q.pad? = some ⟨first + k, o.pad⟩) =
      (n.outputs.find? fun o' => o'.pad = o.pad).map
        fun o' => .pad ⟨first + k, o'.pad⟩ o'.label := by
  obtain ⟨before, after, hsplit, rfl⟩ := exists_split_of_getElem? hn
  let front : List Request := d.sources.map (fun l => .source l.text) ++
    d.allNodeRequests first before first ++ n.inputs.flatMap (d.asks first)
  let back : List Request := d.allNodeRequests first after (first + before.length + 1) ++
    d.outputs.flatMap (d.asks first)
  have hrequests : d.requests first = front ++
      n.outputs.map (fun o' => .pad ⟨first + before.length, o'.pad⟩ o'.label) ++ back := by
    simp [requests, allNodeRequests, hsplit, List.zipIdx_append, nodeRequests, front, back]
  have hfront : front.find? (fun q => q.pad? = some ⟨first + before.length, o.pad⟩) = none := by
    rw [List.find?_eq_none]
    rintro (t | ⟨p, text⟩) hq hpad
    · simp [Request.pad?] at hpad
    · have hlt := node_lt_of_mem_front hd hsplit hq
      obtain rfl : p = ⟨first + before.length, o.pad⟩ := by simpa [Request.pad?] using hpad
      exact (lt_irrefl _ hlt).elim
  have hsome : (n.outputs.find? fun o' => o'.pad = o.pad).isSome :=
    List.find?_isSome.mpr ⟨o, ho, by simp⟩
  obtain ⟨o', ho'⟩ := Option.isSome_iff_exists.mp hsome
  rw [hrequests, List.find?_append, List.find?_append, hfront, List.find?_map]
  simp [Function.comp_def, Request.pad?, ho']

/-! ## The conditions -/

/-- The pads that are asked for are below the limit if those are that references and lists name. -/
lemma limit_iff (hd : d.WellNamed) :
    (∀ p text, .pad p text ∈ d.requests first → p.index < 1024) ↔
      (∀ r ∈ d.references, (∀ l ∈ d.sources, l.text ≠ r) →
        ∀ ref, Names r ref → ref.pad < 1024) ∧
      ∀ n ∈ d.nodes, ∀ o ∈ n.outputs, o.pad < 1024 := by
  constructor
  · refine fun h => ⟨fun r hr other ref names => ?_, fun n hn o ho => ?_⟩
    · exact h _ none (pad_mem_requests_iff.mpr (.inl ⟨rfl, r, hr, endpoint_pad other names⟩))
    · obtain ⟨k, hk⟩ := List.getElem?_of_mem hn
      exact h _ _ (pad_mem_requests_iff.mpr (.inr ⟨k, n, o, hk, ho, rfl, rfl⟩))
  · rintro ⟨hreferred, hlisted⟩ p text hp
    rcases pad_mem_requests_iff.mp hp with ⟨-, r, hr, hend⟩ | ⟨k, n, o, hn, ho, rfl, -⟩
    · by_cases hsource : ∃ l ∈ d.sources, l.text = r
      · obtain ⟨l, hl, rfl⟩ := hsource
        simp [endpoint_source hl] at hend
      · obtain ⟨ref, names, -⟩ := (hd.refers hr).resolve_left hsource
        have other : ∀ l ∈ d.sources, l.text ≠ r := fun l hl htext => hsource ⟨l, hl, htext⟩
        rw [endpoint_pad other names] at hend
        obtain rfl := Endpoint.pad.inj hend
        exact hreferred r hr other ref names
    · exact hlisted n (List.mem_of_getElem? hn) o ho

/-- Only lists ask for pads under labels. -/
lemma labelled_mem_requests_iff {p : Pad} {t : String} :
    .pad p (some t) ∈ d.requests first ↔ d.Lists first p (some t) := by
  simp [pad_mem_requests_iff]

lemma mayLabel_of_compatible (hd : d.WellNamed) (h : Request.Compatible (d.requests first))
    {n : NodeEntry} (hn : n ∈ d.nodes) {o : OutputEntry} (ho : o ∈ n.outputs) {t : String}
    (ht : o.label = some t) : d.MayLabel n o t := by
  obtain ⟨k, hk⟩ := List.getElem?_of_mem hn
  have hmem : .pad ⟨first + k, o.pad⟩ (some t) ∈ d.requests first :=
    labelled_mem_requests_iff.mpr ⟨k, n, o, hk, ho, rfl, ht⟩
  constructor
  case sound => exact h.label _ _ hmem
  case source =>
    intro l hl htext
    exact h.external _ _ hmem (source_mem_requests_iff.mpr ⟨l, hl, htext⟩)
  case first =>
    have hfirst := h.first _ _ hmem
    rw [find?_requests hd hk ho, Option.map_eq_some_iff] at hfirst
    obtain ⟨o', ho', heq⟩ := hfirst
    rw [ho']
    exact (Request.pad.inj heq).2
  case unique =>
    intro n' hn' o' ho' ht'
    obtain ⟨k', hk'⟩ := List.getElem?_of_mem hn'
    have hpads := h.unique _ _ _ hmem
      (labelled_mem_requests_iff.mpr ⟨k', n', o', hk', ho', rfl, ht'⟩)
    obtain ⟨hnode, hpad⟩ := Pad.mk.inj hpads
    obtain rfl : k' = k := Nat.add_left_cancel hnode
    obtain rfl : n' = n := Option.some.inj (hk'.symm.trans hk)
    exact ⟨rfl, hpad⟩

lemma compatible_requests (hd : d.WellNamed)
    (hlimit : ∀ p text, .pad p text ∈ d.requests first → p.index < 1024)
    (hlabel : ∀ n ∈ d.nodes, ∀ o ∈ n.outputs, ∀ t, o.label = some t → d.MayLabel n o t) :
    Request.Compatible (d.requests first) := by
  constructor
  case limit => exact hlimit
  case source =>
    intro t ht
    obtain ⟨l, -, rfl⟩ := source_mem_requests_iff.mp ht
    exact l.sound
  case label =>
    intro p t hp
    obtain ⟨k, n, o, hk, ho, -, ht⟩ := labelled_mem_requests_iff.mp hp
    exact (hlabel n (List.mem_of_getElem? hk) o ho t ht).sound
  case external =>
    intro p t hp hsource
    obtain ⟨k, n, o, hk, ho, -, ht⟩ := labelled_mem_requests_iff.mp hp
    obtain ⟨l, hl, htext⟩ := source_mem_requests_iff.mp hsource
    exact (hlabel n (List.mem_of_getElem? hk) o ho t ht).source l hl htext
  case unique =>
    intro p p' t hp hp'
    obtain ⟨k, n, o, hk, ho, rfl, ht⟩ := labelled_mem_requests_iff.mp hp
    obtain ⟨k', n', o', hk', ho', rfl, ht'⟩ := labelled_mem_requests_iff.mp hp'
    obtain ⟨hid, hpad⟩ := (hlabel n (List.mem_of_getElem? hk) o ho t ht).unique n'
      (List.mem_of_getElem? hk') o' ho' ht'
    rw [← place_eq hd hk, ← place_eq hd hk', hid, hpad]
  case first =>
    intro p t hp
    obtain ⟨k, n, o, hk, ho, rfl, ht⟩ := labelled_mem_requests_iff.mp hp
    have hfirst := (hlabel n (List.mem_of_getElem? hk) o ho t ht).first
    obtain ⟨o', ho', ht'⟩ := Option.bind_eq_some_iff.mp hfirst
    have hpad : o'.pad = o.pad := by simpa using List.find?_some ho'
    rw [find?_requests hd hk ho, ho', Option.map_some, hpad, ht']

lemma buildable_iff :
    (∀ x ∈ d.nodes.zipIdx, x.1.Buildable x.2) ↔
      d.nodes.length ≤ 2 ^ 32 ∧ (∀ n ∈ d.nodes, Node.IsFilterName n.filter) ∧
        ∀ n ∈ d.nodes, ∀ count, n.arity = some count → count = n.inputs.length := by
  have harity : ∀ n : NodeEntry, n.requiredArity.accepts n.inputs.length = true ↔
      ∀ count, n.arity = some count → count = n.inputs.length := by
    intro n
    unfold NodeEntry.requiredArity
    cases n.arity <;> simp [Arity.accepts]
  constructor
  · intro h
    have hnode : ∀ n ∈ d.nodes, ∃ k, n.Buildable k := by
      intro n hn
      obtain ⟨k, hk⟩ := List.getElem?_of_mem hn
      exact ⟨k, h (n, k) (mem_zipIdx_iff.mpr ⟨k, hk, (Nat.zero_add k).symm⟩)⟩
    refine ⟨?_, fun n hn => ?_, fun n hn => ?_⟩
    · by_contra hlong
      have hk : d.nodes[2 ^ 32]? = some d.nodes[2 ^ 32] := List.getElem?_eq_getElem (by omega)
      have hroom := (h (_, 2 ^ 32) (mem_zipIdx_iff.mpr ⟨_, hk, (Nat.zero_add _).symm⟩)).room
      exact (lt_irrefl _ hroom).elim
    · obtain ⟨k, hk⟩ := hnode n hn
      exact hk.name
    · obtain ⟨k, hk⟩ := hnode n hn
      exact (harity n).mp hk.arity
  · rintro ⟨hroom, hname, hcount⟩ ⟨n, k⟩ hx
    obtain ⟨k', hk, rfl⟩ := mem_zipIdx_iff.mp hx
    have hn : n ∈ d.nodes := List.mem_of_getElem? hk
    have hlt : k' < d.nodes.length := (List.getElem?_eq_some_iff.mp hk).1
    exact ⟨by dsimp only; omega, hname n hn, (harity n).mpr (hcount n hn)⟩

/-- What a new graph accepts of a description whose names and references are in order. -/
lemma acceptable_iff (hd : d.WellNamed) {id : Nat} :
    ((Graph.empty id).GrantsAll (d.requests 0) ∧ ∀ x ∈ d.nodes.zipIdx, x.1.Buildable x.2) ↔
      d.Acceptable := by
  rw [Graph.grantsAll_empty_iff, buildable_iff]
  constructor
  · rintro ⟨hcompatible, hroom, hname, harity⟩
    obtain ⟨hreferred, hlisted⟩ := (limit_iff hd).mp hcompatible.limit
    exact ⟨hd, hreferred, hroom, hname, harity, hlisted,
      fun n hn o ho t ht => mayLabel_of_compatible hd hcompatible hn ho ht⟩
  · intro h
    exact ⟨compatible_requests hd ((limit_iff hd).mpr ⟨h.referred, h.listed⟩) h.label, h.room,
      h.name, h.arity⟩

/-- **A description is built on a new graph exactly if it is acceptable**: its names and references
are in order, which is what the check of it finds out; pads are below the limit; there are not too
many nodes, with names of filters and given arities in order; and a pad is listed under a label
only if the first entry for it has that label, which stands for nothing else. Once the check passes,
no reference is to blame if building is refused, on whatever graph.

**Proof sketch.** Building is a row of requests with nodes between them (`build_gives`). A new graph
grants requests if they are compatible (`Graph.grantsAll_empty_iff`), which depends on their order
only in which request for a pad is the first. For a listed pad that is the first entry for it, as
references lead to nodes in front (`find?_requests`). -/
theorem build_isOk_iff (d : Description) :
    (∀ id events, (∃ ss dr, d.build.run ⟨.empty id, events⟩ = .ok ss dr) ↔ d.Acceptable) ∧
    (d.validate = .ok () ↔ d.WellNamed) ∧
    (d.validate = .ok () → ∀ dr e dr', d.build.run dr = .error e dr' → ¬ e.BlamesReference) := by
  refine ⟨fun id events => ?_, validate_eq_ok_iff, fun hcheck dr e dr' hrun => ?_⟩
  · constructor
    · rintro ⟨ss, dr, hrun⟩
      have hd := wellNamed_of_run_eq_ok hrun
      exact (acceptable_iff hd).mp ((build_gives hd).of_run_eq_ok hrun).1
    · intro h
      obtain ⟨events', hrun⟩ := (build_gives (g := Graph.empty id) h.wellNamed).done
        ((acceptable_iff h.wellNamed).mpr h) events
      exact ⟨_, _, hrun⟩
  · obtain ⟨g, events⟩ := dr
    exact (build_gives (validate_eq_ok_iff.mp hcheck)).of_run_eq_error hrun

/-- Two entries for one pad, of which the second has a label and the first may have one. -/
def twiceListed (label : Option String) : Description :=
  ⟨[⟨"0:v", Label.defect?_specifier⟩],
    [⟨"copies", "split", ["0:v"], some 1, [], ∅, [⟨1, label⟩, ⟨1, some "side"⟩]⟩],
    ["copies:0", "copies:1"]⟩

/-- With the same label twice the description is acceptable, but not with a label at the second
entry only. -/
theorem acceptable_twiceListed :
    (twiceListed (some "side")).Acceptable ∧ ¬ (twiceListed none).Acceptable := by
  have hsame := (build_isOk_iff (twiceListed (some "side"))).1 0 #[]
  have hlate := (build_isOk_iff (twiceListed none)).1 0 #[]
  constructor
  · rw [← hsame]
    cases hrun : (twiceListed (some "side")).build.run ⟨.empty 0, #[]⟩ with
    | ok ss dr => exact ⟨ss, dr, rfl⟩
    | error e dr =>
      have hno : (match (twiceListed (some "side")).build.run ⟨.empty 0, #[]⟩ with
        | .ok _ _ => true | .error _ _ => false) = true := by decide +kernel
      simp [hrun] at hno
  · rw [← hlate]
    rintro ⟨ss, dr, hrun⟩
    have hno : (match (twiceListed none).build.run ⟨.empty 0, #[]⟩ with
      | .ok _ _ => false | .error _ _ => true) = true := by decide +kernel
    simp [hrun] at hno

end MediaGraph.Description
