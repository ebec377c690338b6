import MediaGraph.Proofs.Expression.Listing

/-!
# Terminals in another order

The terminals of a compilation say where the search for nodes starts, which labels are kept back,
and which labels are returned. For the first two only the set of their endpoints counts. So the text
does not depend on the order of the terminals, on how often each is given, or on what else may be
done with them.

## Main definitions

* `MediaGraph.Expression.Alike` — two expressions differ only in the labels that are returned, and
  these are the labels of the endpoints in two lists.

## Main results

* `MediaGraph.Labelling.Tabulates.unique` — a filling can be put into rows in one way only.
* `MediaGraph.Graph.compile_alike` — lists of terminals with the same endpoints compile to
  expressions that are alike.
* `MediaGraph.Client.compile_of_same_endpoints` — the same for a client.
-/

set_option autoImplicit false

namespace MediaGraph

/-- Whether two expressions have the same text and the same number of nodes, and return the labels
of the endpoints in two lists: one label for each place in the list, and the same label for the same
endpoint, also across the lists. -/
structure Expression.Alike (e e' : Expression) (terminals terminals' : List Endpoint) : Prop where
  /-- The texts are the same. -/
  text : e'.text = e.text
  /-- The numbers of nodes are the same. -/
  nodeCount : e'.nodeCount = e.nodeCount
  /-- The labels are those of the endpoints. -/
  outputs : ∃ label : Endpoint → Label,
    e.outputs = terminals.map label ∧ e'.outputs = terminals'.map label

/-! ## Nodes behind the same seeds -/

namespace Graph

variable {g : Graph} {seeds seeds' : List Nat}

/-- What is behind some seeds depends on the set of the seeds only. -/
lemma behind_congr (hsame : ∀ s, s ∈ seeds ↔ s ∈ seeds') {id : Nat} :
    g.Behind seeds id ↔ g.Behind seeds' id :=
  exists_congr fun s => and_congr_left' (hsame s)

lemma Ordered.congr (hsame : ∀ s, s ∈ seeds ↔ s ∈ seeds') {nodes : List Node}
    (h : g.Ordered seeds nodes) : g.Ordered seeds' nodes where
  mem_iff := by
    intro n
    rw [h.mem_iff, behind_congr hsame]
  ascending := h.ascending

/-- The nodes that are found are the same list, in whatever order the search starts. -/
lemma sortedAncestors_congr (hg : g.WellFormed) (hseeds : ∀ s ∈ seeds, s < g.nodes.size)
    (hsame : ∀ s, s ∈ seeds ↔ s ∈ seeds') : g.sortedAncestors seeds' = g.sortedAncestors seeds := by
  by_cases hnil : seeds = []
  · have hnil' : seeds' = [] := by
      refine List.eq_nil_iff_forall_not_mem.mpr fun s hs => ?_
      simpa [hnil] using (hsame s).mpr hs
    rw [hnil, hnil']
  · have hnil' : seeds' ≠ [] := by
      obtain ⟨s, hs⟩ := List.exists_mem_of_ne_nil seeds hnil
      exact List.ne_nil_of_mem ((hsame s).mp hs)
    have hseeds' : ∀ s ∈ seeds', s < g.nodes.size := fun s hs => hseeds s ((hsame s).mpr hs)
    obtain ⟨nodes, hnodes, ho⟩ := sortedAncestors_eq_ok hg hseeds hnil
    obtain ⟨nodes', hnodes', ho'⟩ := sortedAncestors_eq_ok hg hseeds' hnil'
    rw [hnodes, hnodes', (ho.congr hsame).unique ho']

variable {terminals terminals' : List Endpoint}

/-- The nodes that endpoints come from depend on the set of the endpoints only. -/
lemma mem_seeds_congr (hsame : ∀ e, e ∈ terminals ↔ e ∈ terminals') (id : Nat) :
    id ∈ Graph.seeds terminals ↔ id ∈ Graph.seeds terminals' := by
  rw [mem_seeds, mem_seeds]
  exact exists_congr fun p => and_congr_left' (hsame _)

end Graph

/-! ## Labels with the same in use -/

namespace LabelSupply

/-- Supplies that make the same labels and have the same numbers left have the same labels left. -/
lemma freeLabels_congr {s s' : LabelSupply} (hcandidate : ∀ m, s'.candidate m = s.candidate m)
    (hfree : ∀ m, m ∈ s'.freeNumbers ↔ m ∈ s.freeNumbers) : s'.freeLabels = s.freeLabels := by
  have hnumbers : s'.freeNumbers = s.freeNumbers :=
    eq_of_ascending s'.pairwise_freeNumbers s.pairwise_freeNumbers hfree
  rw [freeLabels, freeLabels, hnumbers]
  simp only [hcandidate]

end LabelSupply

namespace Labelling

variable {g : Graph} {nodes : List Node} {terminals terminals' : List Endpoint}
  {settings : Settings} {labelling labelling' : Labelling}

/-- The labels that a compilation has left depend on the set of the terminals only. -/
lemma pool_congr (hsame : ∀ e, e ∈ terminals ↔ e ∈ terminals') :
    pool g nodes terminals' settings = pool g nodes terminals settings := by
  have hused : ∀ l, l ∈ usedLabels g nodes terminals' ↔ l ∈ usedLabels g nodes terminals := by
    intro l
    rw [mem_usedLabels, mem_usedLabels, hsame]
  refine LabelSupply.freeLabels_congr (fun m => ?_) fun m => ?_
  · rw [candidate_supply, candidate_supply]
  · simp only [mem_freeNumbers_supply, hused]

/-- **A filling can be put into rows in one way only.**

**Proof sketch.** Induction on the nodes. The row of the first node is as long as the list of its
pads, so it takes the front of the filling, and the other rows hold the rest. -/
theorem Tabulates.unique {nodes : List Nat} {filling : List (Pad × Label)}
    {rows rows' : List (Nat × List Label)} (h : Tabulates g nodes filling rows)
    (h' : Tabulates g nodes filling rows') : rows' = rows := by
  induction nodes generalizing filling rows rows' with
  | nil => rw [List.map_eq_nil_iff.mp h.nodes, List.map_eq_nil_iff.mp h'.nodes]
  | cons node rest ih =>
    obtain ⟨⟨_, labels⟩, tail, rfl, rfl, hrest⟩ := List.map_eq_cons_iff.mp h.nodes
    obtain ⟨⟨_, labels'⟩, tail', rfl, rfl, hrest'⟩ := List.map_eq_cons_iff.mp h'.nodes
    have hlength : labels.length = (g.writtenPads _).length := h.full _ List.mem_cons_self
    have hlength' : labels'.length = (g.writtenPads _).length := h'.full _ List.mem_cons_self
    have hcells := h'.cells.trans h.cells.symm
    rw [List.flatMap_cons, List.flatMap_cons] at hcells
    obtain ⟨hfirst, hothers⟩ := List.append_inj hcells (by simp [hlength, hlength'])
    have hlabels : labels' = labels := by
      have := congrArg (List.map Prod.snd) hfirst
      rwa [List.map_snd_zip (by simp [hlength']), List.map_snd_zip (by simp [hlength])] at this
    have htail : tail' = tail :=
      ih ⟨hrest, fun row hrow => h.full row (List.mem_cons_of_mem _ hrow), rfl⟩
        ⟨hrest', fun row hrow => h'.full row (List.mem_cons_of_mem _ hrow), hothers⟩
    rw [hlabels, htail]

/-- A compilation has one labelling, and it depends on the set of the terminals only. -/
lemma Suits.unique (hsame : ∀ e, e ∈ terminals ↔ e ∈ terminals')
    (h : labelling.Suits g nodes terminals settings)
    (h' : labelling'.Suits g nodes terminals' settings) : labelling' = labelling := by
  have htable := h'.table
  rw [pool_congr hsame] at htable
  exact congrArg Labelling.mk (h.table.unique htable)

end Labelling

/-! ## Compilations -/

namespace Graph

variable {g : Graph} {terminals terminals' : List Stream}

/-- **Lists of terminals with the same endpoints compile to expressions that are alike**, or both
are refused with the same error.

**Proof sketch.** The lists have the same seeds, so the same nodes are to be written. They keep the
same labels back, so there are enough labels for both or for none, and these are put on the pads in
one way. -/
theorem compile_alike (settings : Settings) (hg : g.WellFormed)
    (hown : ∀ t ∈ terminals ++ terminals', t.graph = g.id)
    (hknown : ∀ t ∈ terminals, g.Knows t.endpoint)
    (hsame : ∀ e, e ∈ terminals.map Stream.endpoint ↔ e ∈ terminals'.map Stream.endpoint)
    (events events' : Array Event) :
    match (g.compile terminals settings).run events,
      (g.compile terminals' settings).run events' with
    | .ok e _, .ok e' _ =>
      e.Alike e' (terminals.map Stream.endpoint) (terminals'.map Stream.endpoint)
    | .error err _, .error err' _ => err' = err
    | _, _ => False := by
  have hnil : terminals = [] ↔ terminals' = [] := by
    rw [← List.map_eq_nil_iff (f := Stream.endpoint), ← List.map_eq_nil_iff (f := Stream.endpoint),
      List.eq_nil_iff_forall_not_mem, List.eq_nil_iff_forall_not_mem]
    exact forall_congr' fun e => not_congr (hsame e)
  have hcheck : g.checkTerminals terminals' = g.checkTerminals terminals := by
    by_cases hempty : terminals = []
    · rw [hempty, hnil.mp hempty]
    · rw [checkTerminals_eq_ok_iff.mpr
          ⟨hempty, fun t ht => hown t (List.mem_append_left _ ht)⟩,
        checkTerminals_eq_ok_iff.mpr
          ⟨mt hnil.mpr hempty, fun t ht => hown t (List.mem_append_right _ ht)⟩]
  have hknown : ∀ e ∈ terminals.map Stream.endpoint, g.Knows e := List.forall_mem_map.mpr hknown
  have hknown' : ∀ e ∈ terminals'.map Stream.endpoint, g.Knows e :=
    fun e he => hknown e ((hsame e).mpr he)
  have hseeds := mem_seeds_congr hsame
  rw [compile_run, compile_run, hcheck, sortedAncestors_congr hg (seeds_lt hg hknown) hseeds]
  cases hsettings : settings.validate with
  | error e => rfl
  | ok =>
    cases g.checkTerminals terminals with
    | error e => rfl
    | ok =>
      cases hnodes : g.sortedAncestors (Graph.seeds (terminals.map Stream.endpoint)) with
      | error e => rfl
      | ok nodes =>
        have hword := Settings.validate_eq_ok_iff.mp hsettings
        have ho := (ordered_of_sortedAncestors hg (seeds_lt hg hknown) hnodes).2
        have ho' := ho.congr hseeds
        have hpool : (Labelling.pool g nodes (terminals'.map Stream.endpoint) settings).length =
            (Labelling.pool g nodes (terminals.map Stream.endpoint) settings).length :=
          congrArg List.length (Labelling.pool_congr hsame)
        simp only
        by_cases henough : (Labelling.unnamed g (Labelling.padsOf g nodes)).length ≤
            (Labelling.pool g nodes (terminals.map Stream.endpoint) settings).length
        · obtain ⟨labelling, hsuits, hrun⟩ := write_done hg hknown ho hword henough
            (events.push (.compiling terminals.length))
          obtain ⟨labelling', hsuits', hrun'⟩ :=
            write_done hg hknown' ho' hword (henough.trans_eq hpool.symm)
              (events'.push (.compiling terminals'.length))
          obtain rfl := hsuits.unique hsame hsuits'
          rw [hrun, hrun']
          exact ⟨rfl, rfl, labelling'.name g, rfl, rfl⟩
        · have hfew := Nat.lt_of_not_le henough
          rw [write_overflow hg hknown ho hword hfew,
            write_overflow hg hknown' ho' hword (hpool.trans_lt hfew)]

end Graph

namespace Client

variable {c : Client} {i : Nat} {terminals terminals' : List Stream} {settings : Settings}

/-- **The order of the terminals, how often each is given and whether it may feed filters make no
difference to the text.** Two lists of streams of a graph with the same endpoints are both refused,
with the same error, or both compiled. The expressions then have the same text and the same number
of nodes; each returns one label for every terminal in the order of its list, and the same label for
the same endpoint.

**Proof sketch.** What the client has is known to a well-formed graph (`Client.Reachable.sound`),
and there lists with the same endpoints compile to expressions that are alike
(`Graph.compile_alike`). -/
theorem compile_of_same_endpoints (hc : c.Reachable)
    (hholds : c.Holds (.compile i terminals settings))
    (hown : ∀ t ∈ terminals ++ terminals', t.graph = i)
    (hsame : ∀ e, e ∈ terminals.map Stream.endpoint ↔ e ∈ terminals'.map Stream.endpoint) :
    (∀ err, c.answer (.compile i terminals' settings) = .error err ↔
      c.answer (.compile i terminals settings) = .error err) ∧
    ((∃ e, c.answer (.compile i terminals' settings) = .ok (.expression e)) ↔
      ∃ e, c.answer (.compile i terminals settings) = .ok (.expression e)) ∧
    ∀ e e', c.answer (.compile i terminals settings) = .ok (.expression e) →
      c.answer (.compile i terminals' settings) = .ok (.expression e') →
      e.Alike e' (terminals.map Stream.endpoint) (terminals'.map Stream.endpoint) := by
  have hsound := hc.sound
  have hid := hsound.graph_id i
  have hknown : ∀ t ∈ terminals, (c.session.graph i).Knows t.endpoint := fun t ht =>
    hsound.knows_terminal hholds t ht ((hown t (List.mem_append_left _ ht)).trans hid.symm)
  have halike := Graph.compile_alike settings (hsound.wellFormed i)
    (fun t ht => (hown t ht).trans hid.symm) hknown hsame #[] #[]
  rw [answer_compile, answer_compile]
  split at halike
  · next e _ e' _ hrun hrun' =>
    rw [hrun, hrun']
    simpa using halike
  · next err _ err' _ hrun hrun' =>
    rw [hrun, hrun', halike]
    simp
  · exact halike.elim

lemma defect?_in : Label.defect? "in" = none := by decide

/-- The picture that the run with much sharing starts from. -/
def sharedPicture : Stream := ⟨0, .external ⟨"in", defect?_in⟩, .filterable⟩

/-- The terminals of that run, and the picture behind them. -/
def mixedTerminals : List Stream := sharingTerminals ++ [sharedPicture]

/-- What they compile to: one label more is returned. -/
def mixedExpression : Expression :=
  { sharingExpression with outputs := sharingExpression.outputs ++ [⟨"in", defect?_in⟩] }

/-- The picture in front, then the ancestor twice, fit to feed filters and not, and the last node
once. -/
def reorderedTerminals : List Stream :=
  [sharedPicture, ⟨0, .pad ⟨1, 0⟩, .filterable⟩, ⟨0, .pad ⟨1, 0⟩, .sinkOnly⟩,
    ⟨0, .pad ⟨3, 0⟩, .sinkOnly⟩]

/-- The order and the repetition show in the labels that are returned only. -/
theorem compile_reordered :
    (start.run sharingCalls).Reachable ∧
    (start.run sharingCalls).Holds (.compile 0 mixedTerminals {}) ∧
    (start.run sharingCalls).answer (.compile 0 mixedTerminals {}) =
      .ok (.expression mixedExpression) ∧
    ∃ e, (start.run sharingCalls).answer (.compile 0 reorderedTerminals {}) =
        .ok (.expression e) ∧
      mixedExpression.Alike e (mixedTerminals.map Stream.endpoint)
        (reorderedTerminals.map Stream.endpoint) := by
  have hrun : (start.run sharingCalls).Reachable :=
    Reachable.run (c := start) .refl (by decide +kernel)
  have hholds : (start.run sharingCalls).Holds (.compile 0 mixedTerminals {}) := by
    decide +kernel
  have hanswer : (start.run sharingCalls).answer (.compile 0 mixedTerminals {}) =
      .ok (.expression mixedExpression) := by
    decide +kernel
  have hleft : ∀ e ∈ mixedTerminals.map Stream.endpoint,
      e ∈ reorderedTerminals.map Stream.endpoint := by
    decide +kernel
  have hright : ∀ e ∈ reorderedTerminals.map Stream.endpoint,
      e ∈ mixedTerminals.map Stream.endpoint := by
    decide +kernel
  obtain ⟨-, hdone, halike⟩ :=
    compile_of_same_endpoints hrun hholds (by decide) fun e => ⟨hleft e, hright e⟩
  obtain ⟨e, he⟩ := hdone.mpr ⟨_, hanswer⟩
  exact ⟨hrun, hholds, hanswer, e, he, halike _ _ hanswer he⟩

end Client

end MediaGraph
