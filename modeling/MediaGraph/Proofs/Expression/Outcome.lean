import MediaGraph.Proofs.Expression.Compilation

/-!
# Which compilations are refused

A compilation is refused for its settings, for its terminals, or because there are fewer numbers
left than pads that need one. Nothing else can go wrong: the faults that a search, an order or a
look-up could report do not occur in the graphs that calls build.

## Main definitions

* `MediaGraph.Graph.openPads` — the pads that need a label in a compilation.
* `MediaGraph.Graph.freeNumbers` — the numbers that a compilation has for them.
* `MediaGraph.Graph.refusal?` — why a compilation is refused, if it is.

## Main results

* `MediaGraph.Client.compile_eq_error_iff` — a compilation is refused exactly for this reason.
-/

set_option autoImplicit false

namespace MediaGraph

/-- Whether a text is a plain word: a letter or `_`, and letters, digits and `_` behind it. -/
def Settings.IsPlainWord (text : String) : Prop :=
  ∃ c rest, text.toList = c :: rest ∧ (c.isAlpha ∨ c = '_') ∧ ∀ d ∈ rest, d.isAlphanum ∨ d = '_'

lemma Settings.isWord_iff {text : String} : isWord text.toList ↔ IsPlainWord text := by
  rw [IsPlainWord]
  cases text.toList with
  | nil => simp [isWord]
  | cons c rest => simp [isWord, startsWord, continuesWord]

namespace Graph

/-! ## Pads to be labelled and numbers for them -/

/-- The pads that need a label in a compilation: those that nodes behind the terminals are written
with, as they or higher pads were asked for, and that were not asked for under a label. -/
def openPads (g : Graph) (terminals : List Endpoint) : Set Pad :=
  {p | g.Behind (seeds terminals) p.node ∧
    (∃ q label, g.pads.find? ⟨p.node, q⟩ = some label ∧ p.index ≤ q) ∧
    ∀ l, g.pads.find? p ≠ some (some l)}

/-- Whether a label is in use in a compilation: it is that of an endpoint outside that a node behind
the terminals reads or that is a terminal, or a pad of such a node was asked for under it. -/
def UsesLabel (g : Graph) (terminals : List Endpoint) (l : Label) : Prop :=
  (∃ id n, g.Behind (seeds terminals) id ∧ g.node? id = some n ∧ .external l ∈ n.inputs) ∨
  .external l ∈ terminals ∨
  ∃ p, g.Behind (seeds terminals) p.node ∧ g.pads.find? p = some (some l)

/-- The numbers that a compilation has for its pads: those from the first on whose label is not in
use. The largest number of 64 bits is not one of them. -/
def freeNumbers (g : Graph) (terminals : List Endpoint) (settings : Settings) : Set Nat :=
  {m | settings.first ≤ m ∧ m ≤ 2 ^ 64 - 2 ∧
    ∀ l, g.UsesLabel terminals l → l.text ≠ settings.stem ++ toString m}

variable {g : Graph} {nodes : List Node} {settings : Settings}

section Counting

variable {terminals : List Endpoint}

lemma mem_openPads_iff (hg : g.WellFormed) (hterminals : ∀ e ∈ terminals, g.Knows e)
    (ho : g.Ordered (seeds terminals) nodes) {p : Pad} :
    p ∈ g.openPads terminals ↔ p ∈ Labelling.unnamed g (Labelling.padsOf g nodes) := by
  rw [Labelling.mem_unnamed, Labelling.mem_padsOf, ho.mem_ids_iff hg (seeds_lt hg hterminals),
    labelOf?, Option.join_eq_none_iff, and_assoc]
  refine and_congr_right fun _ => and_congr_right fun _ => ?_
  cases g.pads.find? p with
  | none => simp
  | some label => cases label <;> simp

/-- The pads that need a label are those without one among all that are written. -/
lemma ncard_openPads (hg : g.WellFormed) (hterminals : ∀ e ∈ terminals, g.Knows e)
    (ho : g.Ordered (seeds terminals) nodes) :
    (g.openPads terminals).ncard = (Labelling.unnamed g (Labelling.padsOf g nodes)).length := by
  have hnodup : (Labelling.unnamed g (Labelling.padsOf g nodes)).Nodup :=
    (Labelling.nodup_padsOf ho.nodup_ids).filter _
  rw [← ncard_setOf_mem hnodup]
  exact congrArg Set.ncard (Set.ext fun p => mem_openPads_iff hg hterminals ho)

lemma mem_usedLabels_iff (hg : g.WellFormed) (hterminals : ∀ e ∈ terminals, g.Knows e)
    (ho : g.Ordered (seeds terminals) nodes) {l : Label} :
    l ∈ Labelling.usedLabels g nodes terminals ↔ g.UsesLabel terminals l := by
  have hreads : (∃ n ∈ nodes, .external l ∈ n.inputs) ↔
      ∃ id n, g.Behind (seeds terminals) id ∧ g.node? id = some n ∧ .external l ∈ n.inputs := by
    constructor
    · rintro ⟨n, hn, hread⟩
      exact ⟨n.id, n, (ho.mem_iff.mp hn).1, (ho.mem_iff.mp hn).2, hread⟩
    · rintro ⟨id, n, hbehind, hn, hread⟩
      obtain rfl := hg.node_id hn
      exact ⟨n, ho.mem_iff.mpr ⟨hbehind, hn⟩, hread⟩
  have hnamed : (∃ n ∈ nodes, ∃ i, g.labelOf? (.pad ⟨n.id, i⟩) = some l) ↔
      ∃ p, g.Behind (seeds terminals) p.node ∧ g.pads.find? p = some (some l) := by
    simp only [labelOf?, Option.join_eq_some_iff]
    constructor
    · rintro ⟨n, hn, i, hi⟩
      exact ⟨⟨n.id, i⟩, (ho.mem_iff.mp hn).1, hi⟩
    · rintro ⟨p, hbehind, hp⟩
      obtain ⟨n, hn, hid⟩ :=
        List.mem_map.mp ((ho.mem_ids_iff hg (seeds_lt hg hterminals)).mpr hbehind)
      exact ⟨n, hn, p.index, hid ▸ hp⟩
  rw [Labelling.mem_usedLabels, hreads, hnamed, UsesLabel]

/-- The free numbers are as many as the labels that the compilation has left. -/
lemma ncard_freeNumbers (hg : g.WellFormed) (hterminals : ∀ e ∈ terminals, g.Knows e)
    (ho : g.Ordered (seeds terminals) nodes) (hword : Settings.isWord settings.stem.toList) :
    (g.freeNumbers terminals settings).ncard =
      (Labelling.pool g nodes terminals settings).length := by
  rw [Labelling.pool, (Labelling.worded_supply hword).length_freeLabels,
    ← ncard_setOf_mem ((LabelSupply.pairwise_freeNumbers _).imp Nat.ne_of_lt)]
  refine congrArg Set.ncard (Set.ext fun m => ?_)
  simp only [freeNumbers, Set.mem_ofPred_eq, Labelling.mem_freeNumbers_supply,
    LabelSupply.lt_limit_iff, mem_usedLabels_iff hg hterminals ho]

end Counting

/-! ## The reason for a refusal -/

open Classical in
/-- Why a compilation is refused, if it is: the first of the reasons that applies. -/
noncomputable def refusal? (g : Graph) (terminals : List Stream) (settings : Settings) :
    Option Error :=
  if ¬ Settings.IsPlainWord settings.stem then
    some (.invalid (if settings.stem = "" then .emptyStem else .badStem settings.stem))
  else if terminals = [] then some .emptyGraph
  else if ∃ t ∈ terminals, t.graph ≠ g.id then some .foreignStream
  else if ∀ t ∈ terminals, ∃ l, t.endpoint = .external l then some .emptyGraph
  else if (g.freeNumbers (terminals.map Stream.endpoint) settings).ncard <
      (g.openPads (terminals.map Stream.endpoint)).ncard then
    some (.internal .labelOverflow)
  else none

variable {terminals : List Stream}

/-- A stem that is no plain word is refused. -/
lemma validate_of_not_isPlainWord (h : ¬ Settings.IsPlainWord settings.stem) :
    settings.validate =
      .error (.invalid (if settings.stem = "" then .emptyStem else .badStem settings.stem)) := by
  rw [← Settings.isWord_iff] at h
  unfold Settings.validate Settings.problem?
  by_cases hnil : settings.stem = ""
  · simp [hnil]
  · simp [hnil, h]

/-- A stream of another graph is refused as a terminal. -/
lemma checkTerminals_of_foreign (h : ∃ t ∈ terminals, t.graph ≠ g.id) :
    g.checkTerminals terminals = .error .foreignStream := by
  obtain ⟨t, ht, hforeign⟩ := h
  have hne : terminals ≠ [] := List.ne_nil_of_mem ht
  have hall : ¬ ∀ t ∈ terminals, t.graph = g.id := fun hall => hforeign (hall t ht)
  unfold checkTerminals
  simp [hne, hall]

/-- **A compilation is refused for the first reason that applies, and done if none does.**

**Proof sketch.** The checks are made in the order of the reasons. Behind them, if there is a
terminal that comes from a node, the nodes are found and put in order, and they are written unless
there are too few labels (`Graph.write_done`, `Graph.write_overflow`). -/
theorem compile_outcome (hg : g.WellFormed)
    (hterminals : ∀ t ∈ terminals, t.graph = g.id → g.Knows t.endpoint) (settings : Settings)
    (events : Array Event) :
    match g.refusal? terminals settings with
    | some err => ∃ events', (g.compile terminals settings).run events = .error err events'
    | none => ∃ e events', (g.compile terminals settings).run events = .ok e events' := by
  rw [compile_run, refusal?]
  by_cases hword : Settings.IsPlainWord settings.stem
  · have hisWord := Settings.isWord_iff.mpr hword
    rw [if_neg (not_not_intro hword), Settings.validate_eq_ok_iff.mpr hisWord]
    by_cases hnil : terminals = []
    · subst hnil
      exact ⟨_, rfl⟩
    by_cases hforeign : ∃ t ∈ terminals, t.graph ≠ g.id
    · rw [if_neg hnil, if_pos hforeign, checkTerminals_of_foreign hforeign]
      exact ⟨_, rfl⟩
    have hown : ∀ t ∈ terminals, t.graph = g.id := by
      simpa using hforeign
    rw [if_neg hnil, if_neg hforeign, checkTerminals_eq_ok_iff.mpr ⟨hnil, hown⟩]
    have hseeds : seeds (terminals.map Stream.endpoint) = [] ↔
        ∀ t ∈ terminals, ∃ l, t.endpoint = .external l := by
      rw [seeds_eq_nil_iff, List.forall_mem_map]
    by_cases hexternal : ∀ t ∈ terminals, ∃ l, t.endpoint = .external l
    · rw [if_pos hexternal, hseeds.mpr hexternal, sortedAncestors_of_nil]
      exact ⟨_, rfl⟩
    have hknown : ∀ e ∈ terminals.map Stream.endpoint, g.Knows e := by
      rw [List.forall_mem_map]
      exact fun t ht => hterminals t ht (hown t ht)
    obtain ⟨nodes, hnodes, ho⟩ :=
      sortedAncestors_eq_ok hg (seeds_lt hg hknown) (mt hseeds.mp hexternal)
    rw [if_neg hexternal, hnodes, ncard_freeNumbers hg hknown ho hisWord,
      ncard_openPads hg hknown ho]
    by_cases hfew : (Labelling.pool g nodes (terminals.map Stream.endpoint) settings).length <
        (Labelling.unnamed g (Labelling.padsOf g nodes)).length
    · rw [if_pos hfew]
      exact ⟨_, write_overflow hg hknown ho hisWord hfew _⟩
    · rw [if_neg hfew]
      obtain ⟨labelling, -, hrun⟩ := write_done hg hknown ho hisWord (Nat.le_of_not_lt hfew) _
      exact ⟨_, _, hrun⟩
  · rw [if_pos hword, validate_of_not_isPlainWord hword]
    exact ⟨_, rfl⟩

end Graph

/-! ## Refusals of clients -/

namespace Client

variable {c : Client} {i : Nat} {terminals : List Stream} {settings : Settings}

/-- **A compilation is refused exactly for the first of these reasons that applies, and is done if
none does**: the stem is no plain word; there are no terminals; a terminal is a stream of another
graph; all terminals are outside; more pads need a label than there are free numbers. So of all
faults inside a graph only the overflow of labels can be met, under its own message.

**Proof sketch.** A client has only streams that their graphs know (`Client.Reachable.sound`), and
these graphs are well formed, so the reasons decide (`Graph.compile_outcome`). -/
theorem compile_eq_error_iff (hc : c.Reachable)
    (hholds : c.Holds (.compile i terminals settings)) :
    (∀ err, c.answer (.compile i terminals settings) = .error err ↔
      (c.session.graph i).refusal? terminals settings = some err) ∧
    ((∃ e, c.answer (.compile i terminals settings) = .ok (.expression e)) ↔
      (c.session.graph i).refusal? terminals settings = none) ∧
    (Error.internal .labelOverflow).message =
      "internal consistency error: label counter overflow" := by
  have hsound := hc.sound
  have houtcome := Graph.compile_outcome (hsound.wellFormed i) (hsound.knows_terminal hholds)
    settings #[]
  rw [answer_compile]
  split at houtcome
  · next reason hrefusal =>
    obtain ⟨events, hrun⟩ := houtcome
    rw [hrun, hrefusal]
    refine ⟨fun err => ?_, ?_, rfl⟩
    · rw [Except.error.injEq, Option.some.injEq]
    · simp
  · next hrefusal =>
    obtain ⟨e, events, hrun⟩ := houtcome
    rw [hrun, hrefusal]
    refine ⟨fun err => ?_, ?_, rfl⟩
    · simp
    · exact iff_of_true ⟨e, rfl⟩ rfl

/-- After the sample run two numbers are left from `2 ^ 64 - 3` on. That is one too few: the split
picture, the scaled copy and the picture laid over it have one pad each that needs a label. -/
theorem compile_eq_error_sample :
    (start.run sampleCalls).Reachable ∧
    (start.run sampleCalls).Holds
      (.compile 0 [⟨0, .pad ⟨2, 0⟩, .filterable⟩] ⟨"l", 2 ^ 64 - 3, true⟩) ∧
    ((start.run sampleCalls).session.graph 0).refusal? [⟨0, .pad ⟨2, 0⟩, .filterable⟩]
      ⟨"l", 2 ^ 64 - 3, true⟩ = some (.internal .labelOverflow) := by
  have hrun := reachable_sample
  have hholds : (start.run sampleCalls).Holds
      (.compile 0 [⟨0, .pad ⟨2, 0⟩, .filterable⟩] ⟨"l", 2 ^ 64 - 3, true⟩) := by
    decide +kernel
  exact ⟨hrun, hholds, ((compile_eq_error_iff hrun hholds).1 _).mp (by decide +kernel)⟩

end Client

end MediaGraph
