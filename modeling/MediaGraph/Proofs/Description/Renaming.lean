import MediaGraph.Proofs.Description.Elaboration

/-!
# Names of nodes are only names

The name of a node serves the references and nothing else. If the nodes of a description get other
names, and the references follow, the same calls are made in the same order: the same is built, with
the same answers, or the same error stops the work at the same place.

## Main definitions

* `MediaGraph.Description.renameReference` — a reference after a renaming of the nodes.
* `MediaGraph.Description.rename` — a description after a renaming of its nodes.
* `MediaGraph.Description.Renaming` — the new names are in order and not mistaken for sources.

## Main results

* `MediaGraph.Description.WellNamed.rename` — the check accepts the renamed description.
* `MediaGraph.Description.build_rename` — building it is the same work.
* `MediaGraph.Client.build_of_renaming` — the same for a client, up to what is compiled afterwards.
-/

set_option autoImplicit false

namespace MediaGraph

namespace Description

/-! ## Renaming -/

/-- A reference after a renaming of the nodes. The label of a source stays as it is. In any other
text the name of the node, which stands in front of the last colon if there is one, is replaced. -/
def renameReference (f : String → String) (sources : List Label) (r : String) : String :=
  if ∃ l ∈ sources, l.text = r then r
  else
    match splitLastColon r.toList with
    | none => f r
    | some (front, back) => f (String.ofList front) ++ ":" ++ String.ofList back

/-- A node under its new name, with its references. -/
def NodeEntry.rename (f : String → String) (sources : List Label) (n : NodeEntry) : NodeEntry :=
  { n with id := f n.id, inputs := n.inputs.map (renameReference f sources) }

/-- A description after a renaming of its nodes. -/
def rename (d : Description) (f : String → String) : Description :=
  { d with
    nodes := d.nodes.map (NodeEntry.rename f d.sources)
    outputs := d.outputs.map (renameReference f d.sources) }

/-- Whether the nodes of a description may be renamed. -/
structure Renaming (d : Description) (f : String → String) : Prop where
  /-- Different names stay different. -/
  injective : ∀ m ∈ d.nodes, ∀ n ∈ d.nodes, f m.id = f n.id → m.id = n.id
  /-- No name becomes empty. -/
  nonempty : ∀ n ∈ d.nodes, f n.id ≠ ""
  /-- No new name holds a colon. -/
  plain : ∀ n ∈ d.nodes, ':' ∉ (f n.id).toList
  /-- No new name is the label of a source. -/
  unshadowed : ∀ n ∈ d.nodes, ∀ l ∈ d.sources, l.text ≠ f n.id
  /-- No reference to a node becomes the label of a source. -/
  apart : ∀ r ∈ d.references, (∀ l ∈ d.sources, l.text ≠ r) →
    ∀ l ∈ d.sources, l.text ≠ renameReference f d.sources r

variable {d : Description} {f : String → String} {sources : List Label}
  {before rest : List NodeEntry} {r : String}

lemma renameReference_source (h : ∃ l ∈ sources, l.text = r) :
    renameReference f sources r = r := if_pos h

/-- A reference to a node names the node under its new name, and the same pad. -/
lemma Names.rename {ref : Reference} (h : Names r ref) (other : ∀ l ∈ sources, l.text ≠ r)
    (hplain : ':' ∉ (f ref.id).toList) :
    Names (renameReference f sources r) ⟨f ref.id, ref.pad⟩ := by
  have hno : ¬ ∃ l ∈ sources, l.text = r := fun ⟨l, hl, htext⟩ => other l hl htext
  rw [renameReference, if_neg hno]
  cases h with
  | alone plain =>
    rw [splitLastColon_of_not_mem plain]
    exact .alone hplain
  | @position id digits pad split last number width =>
    have hsplit : r.toList = id.toList ++ ':' :: digits.toList := by simp [split]
    rw [hsplit, splitLastColon_append last]
    simp only [String.ofList_toList]
    exact .position rfl last number width

/-- A reference that means something does so after the renaming. -/
lemma Refers.rename (hf : d.Renaming f) (hsub : before ⊆ d.nodes)
    (hr : Refers d.sources before r) :
    Refers d.sources (before.map (NodeEntry.rename f d.sources))
      (renameReference f d.sources r) := by
  by_cases hsource : ∃ l ∈ d.sources, l.text = r
  · rw [renameReference_source hsource]
    exact .inl hsource
  · obtain ⟨ref, names, n, hn, hid⟩ := hr.resolve_left hsource
    have other : ∀ l ∈ d.sources, l.text ≠ r := fun l hl htext => hsource ⟨l, hl, htext⟩
    refine .inr ⟨_, names.rename other (hid ▸ hf.plain n (hsub hn)), _, List.mem_map_of_mem hn, ?_⟩
    rw [← hid]
    rfl

/-- **The check accepts a description after a renaming of its nodes.** -/
theorem WellNamed.rename (hd : d.WellNamed) (hf : d.Renaming f) : (d.rename f).WellNamed := by
  constructor
  case nonempty => exact List.forall_mem_map.mpr hf.nonempty
  case plain => exact List.forall_mem_map.mpr hf.plain
  case distinct =>
    have hids : (d.rename f).nodes.map NodeEntry.id = (d.nodes.map NodeEntry.id).map f := by
      simp [Description.rename, NodeEntry.rename]
    rw [hids]
    refine hd.distinct.map_on ?_
    simpa using hf.injective
  case unshadowed => exact List.forall_mem_map.mpr hf.unshadowed
  case inputs =>
    intro before' n' after' hsplit
    obtain ⟨before, _, hnodes, rfl, htail⟩ := List.map_eq_append_iff.mp hsplit
    obtain ⟨n, after, rfl, rfl, -⟩ := List.map_eq_cons_iff.mp htail
    refine List.forall_mem_map.mpr fun r hr => ?_
    exact Refers.rename (d := d) hf (by simp [hnodes]) (hd.inputs before n after hnodes r hr)
  case outputs =>
    refine List.forall_mem_map.mpr fun r hr => ?_
    exact Refers.rename (d := d) hf (List.Subset.refl _) (hd.outputs r hr)

/-! ## Looking names up -/

section Lookup

variable {β : Type} {es : List (String × β)} {k : String}

private lemma lookup_eq_none (h : k ∉ es.map Prod.fst) : es.lookup k = none := by
  rw [List.lookup_eq_none_iff]
  intro e he
  have hne : k ≠ e.1 := by
    rintro rfl
    exact h (List.mem_map_of_mem he)
  simpa using hne

private lemma exists_lookup (h : k ∈ es.map Prod.fst) : ∃ b, es.lookup k = some b := by
  rw [← Option.ne_none_iff_exists']
  intro hnone
  obtain ⟨e, he, rfl⟩ := List.mem_map.mp h
  simpa using List.lookup_eq_none_iff.mp hnone e he

/-- Under new names the same is found. -/
lemma lookup_rename (h : ∀ e ∈ es, f e.1 = f k → e.1 = k) :
    (es.map fun e => (f e.1, e.2)).lookup (f k) = es.lookup k := by
  induction es with
  | nil => rfl
  | cons e rest ih =>
    obtain ⟨hfirst, hrest⟩ := List.forall_mem_cons.mp h
    rw [List.map_cons, List.lookup_cons, List.lookup_cons, ih hrest]
    by_cases hk : e.1 = k
    · simp [hk]
    · have hfk : f k ≠ f e.1 := fun hsame => hk (hfirst hsame.symm)
      simp [beq_eq_false_iff_ne.mpr hfk, beq_eq_false_iff_ne.mpr (Ne.symm hk)]

end Lookup

/-! ## Building -/

namespace Scope

variable {scope : Scope}

/-- A scope after a renaming of the nodes. -/
def rename (f : String → String) (scope : Scope) : Scope :=
  { scope with nodes := scope.nodes.map fun e => (f e.1, e.2) }

/-- Whether a scope has entries for the sources of a description and for some nodes, the latest
first. -/
structure Covers (scope : Scope) (d : Description) (before : List NodeEntry) : Prop where
  /-- There is one entry for each source. -/
  sources : scope.sources.map Prod.fst = d.sources.map Label.text
  /-- There is one entry for each of the nodes. -/
  nodes : scope.nodes.map Prod.fst = (before.map NodeEntry.id).reverse

lemma Covers.cons (h : scope.Covers d before) (n : NodeEntry) (handle : Handle) :
    Covers { scope with nodes := (n.id, handle) :: scope.nodes } d (before ++ [n]) where
  sources := h.sources
  nodes := by simp [h.nodes]

/-- A renamed reference names in the renamed scope what it named before.

**Proof sketch.** The label of a source is found among the sources in both, and no other reference
is found there in either. Reading it gives the old name in one and the new name in the other, and
under these the same node is found. -/
lemma resolve_rename (hf : d.Renaming f) (hsub : before ⊆ d.nodes) (hscope : scope.Covers d before)
    (hr : Refers d.sources before r) (hmem : r ∈ d.references) :
    (scope.rename f).resolve (renameReference f d.sources r) = scope.resolve r := by
  have hlabels : ∀ t, t ∈ scope.sources.map Prod.fst ↔ ∃ l ∈ d.sources, l.text = t := by
    simp [hscope.sources]
  by_cases hsource : ∃ l ∈ d.sources, l.text = r
  · obtain ⟨s, hs⟩ := exists_lookup ((hlabels r).mpr hsource)
    rw [renameReference_source hsource]
    simp only [resolve, rename, hs]
  · obtain ⟨ref, names, n, hn, hid⟩ := hr.resolve_left hsource
    have other : ∀ l ∈ d.sources, l.text ≠ r := fun l hl htext => hsource ⟨l, hl, htext⟩
    have hnone : scope.sources.lookup r = none := lookup_eq_none (mt (hlabels r).mp hsource)
    have hnone' : scope.sources.lookup (renameReference f d.sources r) = none := by
      refine lookup_eq_none (mt (hlabels _).mp ?_)
      rintro ⟨l, hl, htext⟩
      exact hf.apart r hmem other l hl htext
    have hread := readReference_eq_ok_iff.mpr names
    have hread' := readReference_eq_ok_iff.mpr
      (names.rename other (hid ▸ hf.plain n (hsub hn)))
    have hids : ∀ id, id ∈ scope.nodes.map Prod.fst ↔ ∃ m ∈ before, m.id = id := by
      simp [hscope.nodes]
    obtain ⟨handle, hhandle⟩ := exists_lookup ((hids _).mpr ⟨n, hn, hid⟩)
    have hrenamed : (scope.nodes.map fun e => (f e.1, e.2)).lookup (f ref.id) = some handle := by
      rw [← hhandle]
      refine lookup_rename fun e he hsame => ?_
      obtain ⟨m, hm, hmid⟩ := (hids e.1).mp (List.mem_map_of_mem he)
      rw [← hmid, ← hid] at hsame ⊢
      exact hf.injective m (hsub hm) n (hsub hn) hsame
    simp only [resolve, rename, hnone, hnone', hread, hread', Edit.check, pure_bind, hrenamed,
      hhandle]

lemma resolveAll_rename (hf : d.Renaming f) (hsub : before ⊆ d.nodes)
    (hscope : scope.Covers d before) {rs : List String}
    (hrs : ∀ r ∈ rs, Refers d.sources before r) (hmem : ∀ r ∈ rs, r ∈ d.references) :
    (scope.rename f).resolveAll (rs.map (renameReference f d.sources)) =
      scope.resolveAll rs := by
  induction rs with
  | nil => rfl
  | cons r rest ih =>
    obtain ⟨hr, hrest⟩ := List.forall_mem_cons.mp hrs
    obtain ⟨hmr, hmrest⟩ := List.forall_mem_cons.mp hmem
    rw [List.map_cons, resolveAll, resolve_rename hf hsub hscope hr hmr, ih hrest hmrest, resolveAll]

end Scope

variable {scope : Scope} {β : Type}

/-- What goes on behind the sources can rely on an entry for each of them. -/
lemma addSources_bind_congr {ls : List Label} {next next' : List (String × Stream) → Edit β}
    (h : ∀ es, es.map Prod.fst = ls.map Label.text → next' es = next es) :
    (addSources ls >>= next') = addSources ls >>= next := by
  induction ls generalizing next next' with
  | nil => simpa [addSources] using h [] rfl
  | cons l rest ih =>
    simp only [addSources, bind_assoc, pure_bind]
    refine bind_congr fun s => ih fun es hes => h _ ?_
    rw [List.map_cons, List.map_cons, hes]

/-- Building nodes under new names is the same work, with the renamed scope at the end.

**Proof sketch.** Induction on the nodes. The references of the first one name the same in both
scopes, so the node is the same; behind it, the scopes have one more entry under the old and the new
name. -/
lemma addNodes_bind_rename (hd : d.WellNamed) (hf : d.Renaming f)
    (hsplit : d.nodes = before ++ rest) (hscope : scope.Covers d before)
    {next next' : Scope → Edit β}
    (h : ∀ scope' : Scope, scope'.Covers d d.nodes → next' (scope'.rename f) = next scope') :
    (addNodes (scope.rename f) (rest.map (NodeEntry.rename f d.sources)) >>= next') =
      addNodes scope rest >>= next := by
  induction rest generalizing scope before with
  | nil =>
    obtain rfl : before = d.nodes := by simp [hsplit]
    simpa [addNodes] using h scope hscope
  | cons n rest ih =>
    have hsub : before ⊆ d.nodes := by simp [hsplit]
    have hn : n ∈ d.nodes := by simp [hsplit]
    have hnode : addNode (scope.rename f) (n.rename f d.sources) = addNode scope n := by
      have hinputs := Scope.resolveAll_rename hf hsub hscope (hd.inputs before n rest hsplit)
        fun r hr => List.mem_append_left _ (List.mem_flatMap.mpr ⟨n, hn, hr⟩)
      rw [addNode, addNode, NodeEntry.rename, hinputs]
      rfl
    rw [List.map_cons, addNodes, addNodes, bind_assoc, bind_assoc, hnode]
    refine bind_congr fun handle => ?_
    exact ih (by simpa using hsplit) (hscope.cons n handle)

/-- **Building a description after a renaming of its nodes is the same work.**

**Proof sketch.** Both descriptions pass the check. The sources are the same, the nodes are built
alike (`addNodes_bind_rename`), and behind them the references of the outputs name the same. -/
theorem build_rename (hd : d.WellNamed) (hf : d.Renaming f) : (d.rename f).build = d.build := by
  have hcheck := validate_eq_ok_iff.mpr hd
  have hcheck' := validate_eq_ok_iff.mpr (hd.rename hf)
  rw [build, build, hcheck, hcheck']
  refine bind_congr fun _ => addSources_bind_congr fun es hes => ?_
  have hscope : Scope.Covers ⟨es, []⟩ d [] := ⟨hes, rfl⟩
  refine addNodes_bind_rename hd hf (List.nil_append _).symm hscope fun scope hcovers => ?_
  exact Scope.resolveAll_rename hf (List.Subset.refl _) hcovers hd.outputs
    fun r hr => List.mem_append_right _ hr

end Description

namespace Client

variable {d : Description} {f : String → String}

/-- **Names of nodes are only names.** If a description passes the check, it does so after any
renaming of its nodes under which they have different plain names that are not mistaken for sources,
and neither are the references. On every graph, and whatever was reported before, both are built
alike: with the same streams or the same error, and with the same graph left behind. So a client is
answered the same and compiles the same afterwards.

**Proof sketch.** What the check accepts is in order (`Description.validate_eq_ok_iff`), and stays
so (`Description.WellNamed.rename`). Then both stand for the same work
(`Description.build_rename`). -/
theorem build_of_renaming (hcheck : d.validate = .ok ()) (hf : d.Renaming f) :
    (d.rename f).validate = .ok () ∧
    (∀ dr, (d.rename f).build.run dr = d.build.run dr) ∧
    ∀ (c : Client) (i : Nat),
      c.answer (.build i (d.rename f)) = c.answer (.build i d) ∧
      c.after (.build i (d.rename f)) = c.after (.build i d) ∧
      ∀ terminals settings,
        (c.after (.build i (d.rename f))).answer (.compile i terminals settings) =
          (c.after (.build i d)).answer (.compile i terminals settings) := by
  have hd := Description.validate_eq_ok_iff.mp hcheck
  have hbuild := Description.build_rename hd hf
  refine ⟨Description.validate_eq_ok_iff.mpr (hd.rename hf), fun dr => by rw [hbuild],
    fun c i => ?_⟩
  have hperform : c.session.perform (.build i (d.rename f)) = c.session.perform (.build i d) := by
    rw [Session.perform, Session.perform, Edit.ofCall, Edit.ofCall, hbuild]
    rfl
  obtain ⟨hanswer, hafter⟩ := congr_of_perform_eq hperform
  exact ⟨hanswer, hafter, fun terminals settings => by rw [hafter]⟩

/-- The two names of the layered description, each for the other node. -/
def swapNames (name : String) : String :=
  if name = "copies" then "layers" else if name = "layers" then "copies" else name

/-- With the names exchanged, and the references with them, the layered description leads to the
same. -/
theorem build_of_swapNames :
    layeredDescription.validate = .ok () ∧
    (layeredDescription.rename swapNames).outputs = ["copies", "layers:2", "layers:1", "0:v"] ∧
    (layeredDescription.rename swapNames).validate = .ok () ∧
    (start.run sampleCalls).after (.build 0 (layeredDescription.rename swapNames)) =
      (start.run sampleCalls).after (.build 0 layeredDescription) := by
  have hcheck : layeredDescription.validate = .ok () := by decide +kernel
  have hf : layeredDescription.Renaming swapNames := by
    constructor <;> decide +kernel
  obtain ⟨hcheck', -, hclient⟩ := build_of_renaming hcheck hf
  exact ⟨hcheck, by decide +kernel, hcheck', (hclient (start.run sampleCalls) 0).2.1⟩

end Client

end MediaGraph
