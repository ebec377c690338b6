import Mathlib.Data.Set.Card
import MediaGraph.Proofs.Expression.Labelling
import MediaGraph.Proofs.Expression.Layout
import MediaGraph.Proofs.Expression.Order
import MediaGraph.Proofs.Session

/-!
# What a compilation answers

The terminals of a compilation come from nodes and from outside. All nodes behind them are written,
all pads that these nodes are written with get labels, and every endpoint that is read or returned
has one of these labels or is outside. So nothing can go wrong on the way but what the caller is
told of: settings, terminals, and too few numbers for the labels.

## Main definitions

* `MediaGraph.Labelling.Suits` — a labelling is that of a compilation.
* `MediaGraph.Labelling.name` — the label of an endpoint in a compilation.
* `MediaGraph.Graph.chain` — how a node is written.

## Main results

* `MediaGraph.Labelling.Suits.injective` — no two pads of a compilation have the same label.
* `MediaGraph.Graph.write_done`, `MediaGraph.Graph.write_overflow` — writing nodes with and without
  enough labels.
* `MediaGraph.Client.Sound.compile_eq_ok` — what a compilation is made of, if it is not refused.
-/

set_option autoImplicit false

namespace MediaGraph

/-- Work on all elements of a list that only answers, for every one of them. -/
lemma mapM_eq_pure {m : Type → Type} [Monad m] [LawfulMonad m] {α β : Type} {f : α → m β}
    {h : α → β} {l : List α} (hl : ∀ a ∈ l, f a = pure (h a)) : l.mapM f = pure (l.map h) := by
  induction l with
  | nil => rfl
  | cons a rest ih =>
    rw [List.mapM_cons, hl a List.mem_cons_self, ih fun b hb => hl b (List.mem_cons_of_mem _ hb)]
    simp

namespace Settings

/-- Settings are accepted exactly if their stem is a plain word. -/
lemma validate_eq_ok_iff {settings : Settings} :
    settings.validate = .ok () ↔ isWord settings.stem.toList := by
  by_cases hword : isWord settings.stem.toList
  · simp [validate, problem?_of_isWord hword, hword]
  · refine iff_of_false ?_ hword
    by_cases hnil : settings.stem.toList = [] <;> simp [validate, problem?, hnil, hword]

end Settings

/-! ## The labelling of a compilation -/

namespace Labelling

/-- All pads that nodes are written with. -/
def padsOf (g : Graph) (nodes : List Node) : List Pad :=
  (nodes.map Node.id).flatMap g.writtenPads

/-- The labels that a compilation has for the pads that have none. -/
def pool (g : Graph) (nodes : List Node) (terminals : List Endpoint) (settings : Settings) :
    List Label :=
  (supply g nodes terminals settings).freeLabels

/-- A labelling is that of a compilation which has enough labels. -/
structure Suits (labelling : Labelling) (g : Graph) (nodes : List Node)
    (terminals : List Endpoint) (settings : Settings) : Prop where
  /-- The stem of assigned labels is a plain word. -/
  word : Settings.isWord settings.stem.toList
  /-- There is a label for every pad that needs one. -/
  enough : (unnamed g (padsOf g nodes)).length ≤ (pool g nodes terminals settings).length
  /-- The labels are those of the filling. -/
  table : Tabulates g (nodes.map Node.id)
    (fill g (padsOf g nodes) (pool g nodes terminals settings)) labelling.rows

variable {g : Graph} {nodes : List Node} {terminals : List Endpoint} {settings : Settings}
  {labelling : Labelling} {seeds : List Nat}

lemma mem_padsOf {p : Pad} : p ∈ padsOf g nodes ↔ p.node ∈ nodes.map Node.id ∧ g.Writes p := by
  simp only [padsOf, List.mem_flatMap, Graph.mem_writtenPads]
  constructor
  · rintro ⟨_, hid, rfl, hp⟩
    exact ⟨hid, hp⟩
  · rintro ⟨hid, hp⟩
    exact ⟨_, hid, rfl, hp⟩

/-- No pad is written twice. -/
lemma nodup_padsOf (hnodes : (nodes.map Node.id).Nodup) : (padsOf g nodes).Nodup := by
  refine List.nodup_flatMap.mpr ⟨fun id _ => g.nodup_writtenPads id, ?_⟩
  refine hnodes.imp fun {a b} hne => ?_
  intro p hpa hpb
  exact hne ((Graph.mem_writtenPads.mp hpa).1.symm.trans (Graph.mem_writtenPads.mp hpb).1)

namespace Suits

/-- Every pad that is written has a label. -/
lemma exists_label (h : labelling.Suits g nodes terminals settings) (ho : g.Ordered seeds nodes)
    {p : Pad} (hp : p ∈ padsOf g nodes) : ∃ l, labelling.labelOf (.pad p) = .ok l := by
  rw [← map_fst_fill h.enough, List.mem_map] at hp
  obtain ⟨⟨p, l⟩, hcell, rfl⟩ := hp
  exact ⟨l, (h.table.labelOf_eq_ok_iff ho.nodup_ids).mpr hcell⟩

/-- Only pads that are written have labels. -/
lemma mem_padsOf (h : labelling.Suits g nodes terminals settings) (ho : g.Ordered seeds nodes)
    {p : Pad} {l : Label} (hl : labelling.labelOf (.pad p) = .ok l) : p ∈ padsOf g nodes :=
  mem_of_mem_fill ((h.table.labelOf_eq_ok_iff ho.nodup_ids).mp hl)

/-- A pad that was asked for under a label has it. A label that a pad was given is not in use. -/
lemma named_or_fresh (h : labelling.Suits g nodes terminals settings)
    (ho : g.Ordered seeds nodes) {p : Pad} {l : Label}
    (hl : labelling.labelOf (.pad p) = .ok l) :
    g.labelOf? (.pad p) = some l ∨
      g.labelOf? (.pad p) = none ∧ l ∉ usedLabels g nodes terminals := by
  refine (mem_fill ((h.table.labelOf_eq_ok_iff ho.nodup_ids).mp hl)).imp_right ?_
  rintro ⟨hunnamed, hpool⟩
  refine ⟨hunnamed, fun hused => ?_⟩
  refine (worded_supply h.word).not_mem_reserved hpool ?_
  rw [supply, LabelSupply.foldl_reserve]
  exact List.mem_append_left _ (List.mem_reverse.mpr (List.mem_map_of_mem hused))

/-- **No two pads of a compilation have the same label.**

**Proof sketch.** In a well-formed graph no two pads were asked for under the same label. The labels
that pads are given differ from each other and from all that pads were asked for under. -/
theorem injective (h : labelling.Suits g nodes terminals settings) (hg : g.WellFormed)
    (ho : g.Ordered seeds nodes) {p q : Pad} {l : Label}
    (hp : labelling.labelOf (.pad p) = .ok l) (hq : labelling.labelOf (.pad q) = .ok l) :
    p = q := by
  have hword : (supply g nodes terminals settings).Worded := worded_supply h.word
  have hfill : ((fill g (padsOf g nodes) (pool g nodes terminals settings)).map
      Prod.snd).Nodup := by
    refine nodup_fill (nodup_padsOf ho.nodup_ids) hword.nodup_freeLabels ?_ ?_
    · intro p q l hp hq
      simp only [Graph.labelOf?, Option.join_eq_some_iff, ← hg.owner_pad] at hp hq
      simpa using hp.symm.trans hq
    · intro p hp l hnamed hl
      refine hword.not_mem_reserved hl ?_
      rw [supply, LabelSupply.foldl_reserve]
      refine List.mem_append_left _ (List.mem_reverse.mpr (List.mem_map_of_mem ?_))
      obtain ⟨n, hn, hid⟩ := List.mem_map.mp (Labelling.mem_padsOf.mp hp).1
      exact mem_usedLabels.mpr (.inr (.inr ⟨n, hn, p.index, hid ▸ hnamed⟩))
  rw [h.table.labelOf_eq_ok_iff ho.nodup_ids] at hp hq
  exact congrArg Prod.fst (List.inj_on_of_nodup_map hfill hp hq rfl)

/-- No pad of a compilation has the label of an endpoint outside that a node reads or that is a
terminal. -/
theorem ne_external (h : labelling.Suits g nodes terminals settings) (hg : g.WellFormed)
    (ho : g.Ordered seeds nodes) (hterminals : ∀ e ∈ terminals, g.Knows e) {p : Pad} {l m : Label}
    (hp : labelling.labelOf (.pad p) = .ok l)
    (hm : (∃ n ∈ nodes, .external m ∈ n.inputs) ∨ .external m ∈ terminals) : l ≠ m := by
  rintro rfl
  rcases h.named_or_fresh ho hp with hnamed | ⟨-, hfresh⟩
  · have howner : g.owners.find? l = some (.external l) := by
      rcases hm with ⟨n, hn, hread⟩ | hterminal
      · exact hg.reads_external (ho.mem_iff.mp hn).2 hread
      · exact hterminals _ hterminal
    rw [Graph.labelOf?, Option.join_eq_some_iff, ← hg.owner_pad, howner] at hnamed
    simp at hnamed
  · exact hfresh (mem_usedLabels.mpr (or_assoc.mp (.inl hm)))

end Suits

/-- The label of an endpoint in a compilation. A pad that is not written has the label that it was
asked for under, if there is one. -/
def name (labelling : Labelling) (g : Graph) (e : Endpoint) : Label :=
  match labelling.labelOf e with
  | .ok l => l
  | .error _ => (g.labelOf? e).getD ⟨"0", by decide⟩

lemma name_eq_of_ok {e : Endpoint} {l : Label} (h : labelling.labelOf e = .ok l) :
    labelling.name g e = l := by
  rw [name, h]

@[simp] lemma name_external (l : Label) : labelling.name g (.external l) = l := rfl

end Labelling

namespace Graph

variable {g : Graph} {nodes : List Node} {terminals : List Endpoint} {settings : Settings}
  {labelling : Labelling}

/-- The nodes that endpoints come from. -/
def seeds (terminals : List Endpoint) : List Nat := terminals.filterMap Endpoint.node?

lemma mem_seeds {id : Nat} :
    id ∈ seeds terminals ↔ ∃ p : Pad, .pad p ∈ terminals ∧ p.node = id := by
  simp only [seeds, List.mem_filterMap]
  constructor
  · rintro ⟨e, he, hid⟩
    cases e with
    | external l => simp [Endpoint.node?] at hid
    | pad p => exact ⟨p, he, by simpa [Endpoint.node?] using hid⟩
  · rintro ⟨p, hp, rfl⟩
    exact ⟨_, hp, rfl⟩

/-- Known endpoints come from nodes of the graph. -/
lemma seeds_lt (hg : g.WellFormed) (hterminals : ∀ e ∈ terminals, g.Knows e) :
    ∀ id ∈ seeds terminals, id < g.nodes.size := by
  intro id hid
  obtain ⟨p, hp, rfl⟩ := mem_seeds.mp hid
  obtain ⟨label, hpad⟩ := hterminals _ hp
  exact (hg.pad_place hpad).1

/-- Of every node behind known endpoints a pad was asked for. -/
lemma exists_requested (hg : g.WellFormed) (hterminals : ∀ e ∈ terminals, g.Knows e) {id : Nat}
    (h : g.Behind (seeds terminals) id) : ∃ i label, g.pads.find? ⟨id, i⟩ = some label := by
  obtain ⟨s, hs, hpath⟩ := h
  rcases hpath.cases_tail with rfl | ⟨reader, -, n, hn, hread⟩
  · obtain ⟨p, hp, rfl⟩ := mem_seeds.mp hs
    exact ⟨p.index, hterminals _ hp⟩
  · obtain ⟨p, hp, rfl⟩ := Node.mem_feeders_iff.mp hread
    exact ⟨p.index, (hg.reads_pad hn hp).2⟩

/-- Of every node that is written for known endpoints a pad was asked for. -/
lemma requestedPads_ne_nil (hg : g.WellFormed) (hterminals : ∀ e ∈ terminals, g.Knows e)
    (ho : g.Ordered (seeds terminals) nodes) : ∀ n ∈ nodes, g.requestedPads n.id ≠ [] := by
  intro n hn
  obtain ⟨i, label, hpad⟩ := exists_requested hg hterminals (ho.mem_iff.mp hn).1
  exact List.ne_nil_of_mem (mem_requestedPads.mpr hpad)

/-- An endpoint that a node reads or that is a terminal has its label in a compilation. -/
lemma labelOf_eq_name (hg : g.WellFormed) (hterminals : ∀ e ∈ terminals, g.Knows e)
    (ho : g.Ordered (seeds terminals) nodes) (h : labelling.Suits g nodes terminals settings)
    {e : Endpoint} (he : (∃ n ∈ nodes, e ∈ n.inputs) ∨ e ∈ terminals) :
    labelling.labelOf e = .ok (labelling.name g e) := by
  cases e with
  | external l => rfl
  | pad p =>
    have hseeds := seeds_lt hg hterminals
    have hpad : p.node ∈ nodes.map Node.id ∧ ∃ label, g.pads.find? p = some label := by
      rcases he with ⟨n, hn, hread⟩ | hterminal
      · exact ⟨(ho.reads hg hseeds hn hread).2, (hg.reads_pad (ho.mem_iff.mp hn).2 hread).2⟩
      · refine ⟨(ho.mem_ids_iff hg hseeds).mpr (.of_mem ?_), hterminals _ hterminal⟩
        exact mem_seeds.mpr ⟨p, hterminal, rfl⟩
    obtain ⟨hid, label, hrequested⟩ := hpad
    obtain ⟨l, hl⟩ := h.exists_label ho
      (Labelling.mem_padsOf.mpr ⟨hid, p.index, label, hrequested, Nat.le_refl _⟩)
    rw [hl, Labelling.name_eq_of_ok hl]

/-! ## The run of a compilation -/

/-- How a node is written. -/
def chain (g : Graph) (labelling : Labelling) (n : Node) : Expression.Chain :=
  ⟨n.inputs.map (labelling.name g), n, labelling.outputs n.id⟩

/-- The expression of nodes and terminals that have their labels. -/
def expression (g : Graph) (labelling : Labelling) (nodes : List Node) (terminals : List Endpoint)
    (settings : Settings) : Expression :=
  ⟨String.ofList (Expression.renderAll settings.escape (nodes.map (g.chain labelling))),
    terminals.map (labelling.name g), nodes.length⟩

/-- The text of the expression is laid out as it should be. -/
lemma expression_laidOut (g : Graph) (labelling : Labelling) (nodes : List Node)
    (terminals : List Endpoint) (settings : Settings) :
    Expression.LaidOut settings.escape (nodes.map (g.chain labelling))
      (g.expression labelling nodes terminals settings).text :=
  Expression.laidOut_iff.mpr rfl

/-- If all that nodes read has its label, all nodes can be written. -/
lemma labelChains_eq_ok
    (h : ∀ n ∈ nodes, ∀ e ∈ n.inputs, labelling.labelOf e = .ok (labelling.name g e)) :
    labelChains labelling nodes = .ok (nodes.map (g.chain labelling)) := by
  induction nodes with
  | nil => rfl
  | cons n rest ih =>
    rw [labelChains, mapM_eq_pure (h n List.mem_cons_self),
      ih fun m hm => h m (List.mem_cons_of_mem _ hm)]
    rfl

end Graph

namespace Labelling

variable {g : Graph} {nodes : List Node} {terminals : List Endpoint} {settings : Settings}

/-- With enough labels, an assignment gives the labelling of the compilation. -/
lemma assign_done (hrequested : ∀ n ∈ nodes, g.requestedPads n.id ≠ [])
    (hword : Settings.isWord settings.stem.toList)
    (henough : (unnamed g (padsOf g nodes)).length ≤ (pool g nodes terminals settings).length)
    (events : Array Event) :
    ∃ labelling, (assign g nodes terminals settings).run events = .ok labelling
        (events ++ (reports g (padsOf g nodes) (pool g nodes terminals settings)).toArray) ∧
      labelling.Suits g nodes terminals settings := by
  have hids : ∀ id ∈ nodes.map Node.id, g.requestedPads id ≠ [] := by simpa using hrequested
  obtain ⟨rows, hrun, htable⟩ := assignNodes_done hids (worded_supply hword) henough events
  refine ⟨⟨rows⟩, ?_, hword, henough, htable⟩
  rw [assign, EStateM.run_bind, hrun]
  rfl

/-- With too few labels, an assignment overflows. -/
lemma assign_overflow (hrequested : ∀ n ∈ nodes, g.requestedPads n.id ≠ [])
    (hword : Settings.isWord settings.stem.toList)
    (hfew : (pool g nodes terminals settings).length < (unnamed g (padsOf g nodes)).length)
    (events : Array Event) :
    (assign g nodes terminals settings).run events = .error (.internal .labelOverflow)
        (events ++ (reports g (padsOf g nodes) (pool g nodes terminals settings)).toArray) := by
  have hids : ∀ id ∈ nodes.map Node.id, g.requestedPads id ≠ [] := by simpa using hrequested
  have hrun := assignNodes_overflow hids (worded_supply hword) hfew events
  rw [assign, EStateM.run_bind, hrun]
  rfl

end Labelling

namespace Graph

variable {g : Graph} {nodes : List Node} {terminals : List Stream} {settings : Settings}

/-- The writing of nodes that have enough labels. -/
theorem write_done (hg : g.WellFormed) {terminals : List Endpoint}
    (hterminals : ∀ e ∈ terminals, g.Knows e) (ho : g.Ordered (seeds terminals) nodes)
    (hword : Settings.isWord settings.stem.toList)
    (henough : (Labelling.unnamed g (Labelling.padsOf g nodes)).length ≤
      (Labelling.pool g nodes terminals settings).length) (events : Array Event) :
    ∃ labelling : Labelling, labelling.Suits g nodes terminals settings ∧
      (g.write nodes terminals settings).run events =
        let e := g.expression labelling nodes terminals settings
        .ok e ((events ++ (Labelling.reports g (Labelling.padsOf g nodes)
          (Labelling.pool g nodes terminals settings)).toArray).push
            (.compiled e.nodeCount e.text.utf8ByteSize)) := by
  obtain ⟨labelling, hrun, hsuits⟩ := Labelling.assign_done
    (requestedPads_ne_nil hg hterminals ho) hword henough events
  have hlabels := fun e => labelOf_eq_name (e := e) hg hterminals ho hsuits
  refine ⟨labelling, hsuits, ?_⟩
  rw [write, EStateM.run_bind, hrun]
  simp only
  rw [Report.run_check_bind, labelChains_eq_ok fun n hn e he => hlabels e (.inl ⟨n, hn, he⟩)]
  simp only
  rw [Report.run_check_bind, mapM_eq_pure fun e he => hlabels e (.inr he)]
  rfl

/-- The writing of nodes that have too few labels. -/
theorem write_overflow (hg : g.WellFormed) {terminals : List Endpoint}
    (hterminals : ∀ e ∈ terminals, g.Knows e) (ho : g.Ordered (seeds terminals) nodes)
    (hword : Settings.isWord settings.stem.toList)
    (hfew : (Labelling.pool g nodes terminals settings).length <
      (Labelling.unnamed g (Labelling.padsOf g nodes)).length) (events : Array Event) :
    (g.write nodes terminals settings).run events = .error (.internal .labelOverflow)
      (events ++ (Labelling.reports g (Labelling.padsOf g nodes)
        (Labelling.pool g nodes terminals settings)).toArray) := by
  rw [write, EStateM.run_bind, Labelling.assign_overflow (requestedPads_ne_nil hg hterminals ho)
    hword hfew events]

/-- A compilation checks its settings and its terminals, looks for the nodes and writes them. -/
theorem compile_run (g : Graph) (terminals : List Stream) (settings : Settings)
    (events : Array Event) :
    (g.compile terminals settings).run events =
      match settings.validate, g.checkTerminals terminals,
        g.sortedAncestors (seeds (terminals.map Stream.endpoint)) with
      | .ok (), .ok (), .ok nodes =>
        (g.write nodes (terminals.map Stream.endpoint) settings).run
          (events.push (.compiling terminals.length))
      | .error e, _, _ | .ok (), .error e, _ | .ok (), .ok (), .error e =>
        .error e (events.push (.compiling terminals.length)) := by
  rw [compile, Report.run_emit_bind, Report.run_check_bind]
  cases settings.validate with
  | error e => rfl
  | ok =>
    simp only
    rw [Report.run_check_bind]
    cases g.checkTerminals terminals with
    | error e => rfl
    | ok =>
      simp only
      rw [Report.run_check_bind, ← seeds]
      cases g.sortedAncestors (seeds (terminals.map Stream.endpoint)) with
      | error e => rfl
      | ok nodes => rfl

/-- Terminals are accepted if there are some and all are of the graph. -/
lemma checkTerminals_eq_ok_iff :
    g.checkTerminals terminals = .ok () ↔ terminals ≠ [] ∧ ∀ t ∈ terminals, t.graph = g.id := by
  unfold checkTerminals
  by_cases hnil : terminals = []
  · simp [hnil]
  · simp [hnil]

/-- If there are no seeds, all terminals are outside. -/
lemma seeds_eq_nil_iff {terminals : List Endpoint} :
    seeds terminals = [] ↔ ∀ e ∈ terminals, ∃ l, e = .external l := by
  rw [seeds, List.filterMap_eq_nil_iff]
  refine forall₂_congr fun e _ => ?_
  cases e <;> simp [Endpoint.node?]

/-- **What a compilation is made of**, if it is not refused: all nodes behind the terminals in
ascending order, a labelling with enough labels, and terminals that the graph knows. -/
theorem compile_eq_ok (hg : g.WellFormed)
    (hterminals : ∀ t ∈ terminals, t.graph = g.id → g.Knows t.endpoint)
    {events events' : Array Event} {e : Expression}
    (h : (g.compile terminals settings).run events = .ok e events') :
    ∃ (nodes : List Node) (labelling : Labelling), nodes ≠ [] ∧
      (∀ t ∈ terminals.map Stream.endpoint, g.Knows t) ∧
      g.Ordered (seeds (terminals.map Stream.endpoint)) nodes ∧
      labelling.Suits g nodes (terminals.map Stream.endpoint) settings ∧
      e = g.expression labelling nodes (terminals.map Stream.endpoint) settings := by
  rw [compile_run] at h
  split at h
  · next nodes hsettings hterms hnodes =>
    have hknown : ∀ t ∈ terminals.map Stream.endpoint, g.Knows t := by
      intro e he
      obtain ⟨t, ht, rfl⟩ := List.mem_map.mp he
      exact hterminals t ht ((checkTerminals_eq_ok_iff.mp hterms).2 t ht)
    have hseeds := seeds_lt hg hknown
    have hword := Settings.validate_eq_ok_iff.mp hsettings
    have hsome : seeds (terminals.map Stream.endpoint) ≠ [] := by
      intro hnil
      simp [hnil, sortedAncestors_of_nil] at hnodes
    obtain ⟨found, hok, ho⟩ := sortedAncestors_eq_ok hg hseeds hsome
    obtain rfl : nodes = found := Except.ok.inj (hnodes.symm.trans hok)
    rcases Nat.lt_or_ge (Labelling.pool g nodes (terminals.map Stream.endpoint) settings).length
      (Labelling.unnamed g (Labelling.padsOf g nodes)).length with hfew | henough
    · rw [write_overflow hg hknown ho hword hfew] at h
      simp at h
    · obtain ⟨labelling, hsuits, hrun⟩ := write_done hg hknown ho hword henough
        (events.push (.compiling terminals.length))
      rw [hrun] at h
      exact ⟨nodes, labelling, ho.ne_nil hg hseeds hsome, hknown, ho, hsuits,
        (EStateM.Result.ok.inj h).1.symm⟩
  · simp at h
  · simp at h
  · simp at h

end Graph

/-! ## Compilations of a client -/

namespace Client

variable {c : Client} {i : Nat} {terminals : List Stream} {settings : Settings}

/-- A compilation is answered by its run on the graph. -/
lemma answer_compile (c : Client) (i : Nat) (terminals : List Stream) (settings : Settings) :
    c.answer (.compile i terminals settings) =
      match ((c.session.graph i).compile terminals settings).run #[] with
      | .ok e _ => .ok (.expression e)
      | .error e _ => .error e := by
  simp only [answer, Session.perform, Edit.ofCall, Call.target, map_eq_pure_bind,
    EStateM.run_bind, Edit.ofReport_run]
  cases ((c.session.graph i).compile terminals settings).run #[] <;> rfl

/-- What a client can compile with, the graph knows. -/
lemma Sound.knows_terminal (hc : c.Sound) (hholds : c.Holds (.compile i terminals settings)) :
    ∀ t ∈ terminals, t.graph = (c.session.graph i).id → (c.session.graph i).Knows t.endpoint := by
  intro t ht hsame
  rw [hc.graph_id] at hsame
  exact hsame ▸ hc.streams t (hholds.1 t ht)

/-- What the compilation of a client is made of, if it is not refused. -/
theorem Sound.compile_eq_ok (hc : c.Sound) (hholds : c.Holds (.compile i terminals settings))
    {e : Expression} (h : c.answer (.compile i terminals settings) = .ok (.expression e)) :
    ∃ (nodes : List Node) (labelling : Labelling), nodes ≠ [] ∧
      (∀ t ∈ terminals.map Stream.endpoint, (c.session.graph i).Knows t) ∧
      (c.session.graph i).Ordered (Graph.seeds (terminals.map Stream.endpoint)) nodes ∧
      labelling.Suits (c.session.graph i) nodes (terminals.map Stream.endpoint) settings ∧
      e = (c.session.graph i).expression labelling nodes (terminals.map Stream.endpoint)
        settings := by
  rw [answer_compile] at h
  split at h
  · next e' events hrun =>
    obtain rfl : e' = e := by simpa using h
    exact Graph.compile_eq_ok (hc.wellFormed i) (hc.knows_terminal hholds) hrun
  · simp at h

/-! ## The sample run -/

/-- The terminals of the sample run: the picture laid over, and a stream from outside whose label
would be the fifth to be assigned. -/
def sampleTerminals : List Stream :=
  [⟨0, .pad ⟨2, 0⟩, .filterable⟩, ⟨0, .external ⟨"l5", by decide⟩, .filterable⟩]

/-- What these terminals compile to. The label `l1` is that of a pad, so it is not assigned. -/
def sampleExpression : Expression :=
  ⟨"[0:v]split[l2][l1];[l1]scale=2\\\\:3[l3];[l2][l3]overlay[l4]",
    [⟨"l4", by decide⟩, ⟨"l5", by decide⟩], 3⟩

/-- What they compile to without escaping. -/
def plainSampleExpression : Expression :=
  ⟨"[0:v]split[l2][l1];[l1]scale=2:3[l3];[l2][l3]overlay[l4]",
    [⟨"l4", by decide⟩, ⟨"l5", by decide⟩], 3⟩

/-- The client of the sample run has these terminals, whatever the settings are. -/
lemma holds_sample (settings : Settings) :
    (start.run sampleCalls).Holds (.compile 0 sampleTerminals settings) := by
  have hstreams : ∀ s ∈ sampleTerminals, s ∈ (start.run sampleCalls).streams := by decide +kernel
  exact ⟨hstreams, fun h hh => nomatch hh⟩

/-- The sample run compiles with the settings that are taken if none are given. -/
lemma answer_sample : (start.run sampleCalls).answer (.compile 0 sampleTerminals {}) =
    .ok (.expression sampleExpression) := by
  decide +kernel

end Client

end MediaGraph
