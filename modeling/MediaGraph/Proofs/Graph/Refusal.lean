import MediaGraph.Proofs.Graph.Requests

/-!
# When work is refused

Some work on a graph is described by the condition under which it is not refused, and by the answer
and the graph that come out of it then. Work put together from other work is accepted if its parts
are, each on the graph that those in front of it leave behind. None of the pieces that build on a
graph blames a reference: these are read before.

## Main definitions

* `MediaGraph.Error.BlamesReference` — an error says that a reference is wrong.
* `MediaGraph.Graph.append` — a graph with more nodes.
* `MediaGraph.Edit.Gives` — when some work is accepted, and what comes out of it then.

## Main results

* `MediaGraph.Edit.request_gives`, `MediaGraph.Edit.addNode_gives` — the pieces.
* `MediaGraph.Graph.served_append` — requests have nothing to do with nodes.
-/

set_option autoImplicit false

namespace MediaGraph

/-! ## Errors that blame a reference -/

/-- Whether an error says that a reference names nothing or that its pad cannot be read. -/
def Error.BlamesReference (e : Error) : Prop :=
  ∃ r, e = .invalid (.unknownReference r) ∨ e = .invalid (.badPad r)

/-- Whether a check never blames a reference. -/
def Spares {α : Type} (x : Except Error α) : Prop := ∀ e, x = .error e → ¬ e.BlamesReference

namespace Spares

variable {α β : Type}

lemma ok (a : α) : Spares (.ok a : Except Error α) := fun _ h => nomatch h

lemma error {e : Error} (h : ¬ e.BlamesReference) : Spares (.error e : Except Error α) := by
  rintro _ ⟨⟩
  exact h

lemma bind {x : Except Error α} {f : α → Except Error β} (h : Spares x)
    (hf : ∀ a, Spares (f a)) : Spares (x >>= f) := by
  cases x with
  | ok a => exact hf a
  | error e =>
    rintro _ ⟨⟩
    exact h e rfl

end Spares

namespace Graph

variable {g : Graph}

lemma spares_readLabel (text : String) : Spares (readLabel text) := by
  unfold readLabel
  cases Label.ofText text with
  | ok l => exact .ok l
  | error d => exact .error (by simp [Error.BlamesReference, Error.ofDefect])

lemma spares_readOptionalLabel (text : Option String) : Spares (readOptionalLabel text) := by
  cases text with
  | none => exact .ok none
  | some t =>
    have h := spares_readLabel t
    rw [readOptionalLabel]
    cases hread : readLabel t with
    | ok l => exact .ok (some l)
    | error e => exact .error (h e hread)

lemma spares_bind (l : Label) (e : Endpoint) : Spares (g.bind l e) := by
  unfold bind
  split
  · split
    · exact .ok _
    · exact .error (by simp [Error.BlamesReference])
  · exact .ok _

lemma spares_requestPad (p : Pad) (label : Option Label) : Spares (g.requestPad p label) := by
  unfold requestPad
  split
  · split
    · exact .ok _
    · exact .error (by simp [Error.BlamesReference])
  · exact .ok _
  · exact (spares_bind _ _).bind fun _ => .ok _
  · exact .ok _

/-- Asking for a stream never blames a reference. -/
lemma spares_serve (q : Request) : Spares (g.serve q) := by
  cases q with
  | source text =>
    refine (spares_readLabel text).bind fun l => ?_
    exact (spares_bind l _).bind fun _ => .ok _
  | pad p text =>
    unfold serve request
    dsimp only
    split
    · exact .error (by simp [Error.BlamesReference])
    · refine (spares_readOptionalLabel text).bind fun label => ?_
      exact (spares_requestPad _ label).bind fun _ => .ok _

lemma spares_checkInputs (action : String) (inputs : List Stream) :
    Spares (g.checkInputs action inputs) := by
  induction inputs with
  | nil => exact .ok ()
  | cons s rest ih =>
    refine Spares.bind ?_ fun _ => ih
    unfold checkInput Stream.require
    split
    · split
      · exact .ok ()
      · exact .error (by simp [Error.BlamesReference])
    · exact .error (by simp [Error.BlamesReference])

lemma not_blamesReference_of_nameProblem? {filter : String} {problem : Invalid}
    (h : Node.nameProblem? filter = some problem) : ¬ (Error.invalid problem).BlamesReference := by
  unfold Node.nameProblem? at h
  split at h
  · obtain rfl := Option.some.inj h
    simp [Error.BlamesReference]
  · obtain ⟨c, -, rfl⟩ := Option.map_eq_some_iff.mp h
    simp [Error.BlamesReference]

/-- Adding a node never blames a reference. -/
lemma spares_nextNode (inputs : List Stream) (filter : String) (arity : Arity)
    (arguments : Arguments) : Spares (g.nextNode inputs filter arity arguments) := by
  unfold nextNode
  refine (spares_checkInputs _ inputs).bind fun _ => ?_
  split
  · exact .error (by simp [Error.BlamesReference])
  · unfold Node.make
    split
    · next hname => exact .error (not_blamesReference_of_nameProblem? hname)
    · split
      · exact .ok _
      · exact .error (by simp [Error.BlamesReference])
    · exact .ok _

/-! ## Requests and nodes -/

/-- A graph with more nodes. -/
def append (g : Graph) (ns : List Node) : Graph := { g with nodes := g.nodes ++ ns.toArray }

@[simp] lemma append_id (g : Graph) (ns : List Node) : (g.append ns).id = g.id := rfl

@[simp] lemma append_pads (g : Graph) (ns : List Node) : (g.append ns).pads = g.pads := rfl

@[simp] lemma append_owners (g : Graph) (ns : List Node) : (g.append ns).owners = g.owners := rfl

@[simp] lemma size_append (g : Graph) (ns : List Node) :
    (g.append ns).nodes.size = g.nodes.size + ns.length := by
  simp [append]

@[simp] lemma append_nil (g : Graph) : g.append [] = g := by
  simp [append]

@[simp] lemma append_append (g : Graph) (ns ms : List Node) :
    (g.append ns).append ms = g.append (ns ++ ms) := by
  simp [append]

variable (ns : List Node)

lemma bind_append (l : Label) (e : Endpoint) :
    (g.append ns).bind l e = (g.bind l e).map fun g' => g'.append ns := by
  unfold bind
  rw [append_owners]
  split
  · split <;> rfl
  · rfl

lemma requestPad_append (p : Pad) (label : Option Label) :
    (g.append ns).requestPad p label = (g.requestPad p label).map fun g' => g'.append ns := by
  unfold requestPad
  rw [append_pads]
  split
  · split <;> rfl
  · rfl
  · rw [bind_append]
    cases g.bind _ _ <;> rfl
  · rfl

/-- What a graph answers to a request has nothing to do with its nodes. -/
lemma serve_append (q : Request) :
    (g.append ns).serve q = (g.serve q).map fun r => (r.1, r.2.append ns) := by
  cases q with
  | source text =>
    simp only [serve, source]
    cases readLabel text with
    | error e => rfl
    | ok l =>
      change ((g.append ns).bind l _ >>= _) = Except.map _ (g.bind l _ >>= _)
      rw [bind_append]
      cases g.bind l (.external l) <;> rfl
  | pad p text =>
    simp only [serve, request]
    split
    · rfl
    · cases readOptionalLabel text with
      | error e => rfl
      | ok label =>
        change ((g.append ns).requestPad _ label >>= _) = Except.map _ (g.requestPad _ label >>= _)
        rw [requestPad_append]
        cases g.requestPad _ label <;> rfl

@[simp] lemma grants_append {q : Request} : (g.append ns).Grants q ↔ g.Grants q := by
  unfold Grants
  rw [serve_append]
  cases g.serve q <;> simp [Except.map]

@[simp] lemma served_append (q : Request) : (g.append ns).served q = (g.served q).append ns := by
  unfold served
  rw [serve_append]
  cases g.serve q <;> rfl

@[simp] lemma grantsAll_of_append {qs : List Request} :
    (g.append ns).GrantsAll qs ↔ g.GrantsAll qs := by
  induction qs generalizing g with
  | nil => rfl
  | cons q rest ih => simp [GrantsAll, ih]

@[simp] lemma servedAll_of_append (qs : List Request) :
    (g.append ns).servedAll qs = (g.servedAll qs).append ns := by
  induction qs generalizing g with
  | nil => rfl
  | cons q rest ih =>
    change ((g.append ns).served q).servedAll rest = ((g.served q).servedAll rest).append ns
    rw [served_append, ih]

end Graph

/-! ## Work -/

namespace Edit

variable {α β : Type} {g g₁ g₂ : Graph} {work : Edit α} {accepted accepted' : Prop} {a : α}

/-- On the graph `g`, some work is accepted under a condition, and then it answers with `a` and
leaves `g'` behind. If it is refused, no reference is to blame. -/
structure Gives (g : Graph) (work : Edit α) (accepted : Prop) (a : α) (g' : Graph) : Prop where
  /-- What is accepted is done. -/
  done : accepted → ∀ events, ∃ events', work.run ⟨g, events⟩ = .ok a ⟨g', events'⟩
  /-- What is not accepted is refused. -/
  refused : ¬ accepted → ∀ events, ∃ e d, work.run ⟨g, events⟩ = .error e d ∧ ¬ e.BlamesReference

/-- Work that is answered was accepted. -/
lemma Gives.of_run_eq_ok (h : Gives g work accepted a g₁) {events : Array Event} {b : α}
    {d : Draft} (hrun : work.run ⟨g, events⟩ = .ok b d) : accepted ∧ b = a ∧ d.graph = g₁ := by
  by_cases haccepted : accepted
  · obtain ⟨events', hdone⟩ := h.done haccepted events
    obtain ⟨rfl, rfl⟩ := EStateM.Result.ok.inj (hrun.symm.trans hdone)
    exact ⟨haccepted, rfl, rfl⟩
  · obtain ⟨e, d', hrefused, -⟩ := h.refused haccepted events
    cases hrun.symm.trans hrefused

/-- Work that is refused does not blame a reference. -/
lemma Gives.of_run_eq_error (h : Gives g work accepted a g₁) {events : Array Event} {e : Error}
    {d : Draft} (hrun : work.run ⟨g, events⟩ = .error e d) : ¬ e.BlamesReference := by
  by_cases haccepted : accepted
  · obtain ⟨events', hdone⟩ := h.done haccepted events
    cases hrun.symm.trans hdone
  · obtain ⟨e', d', hrefused, he⟩ := h.refused haccepted events
    obtain ⟨rfl, -⟩ := EStateM.Result.error.inj (hrun.symm.trans hrefused)
    exact he

lemma Gives.congr (h : Gives g work accepted a g₁) (hiff : accepted ↔ accepted') :
    Gives g work accepted' a g₁ :=
  ⟨fun ha => h.done (hiff.mpr ha), fun ha => h.refused (mt hiff.mp ha)⟩

lemma gives_pure (a : α) : Gives g (pure a) True a g :=
  ⟨fun _ events => ⟨events, rfl⟩, fun h => (h trivial).elim⟩

/-- Work followed by other work is accepted if both are. -/
lemma Gives.bind {next : α → Edit β} {b : β} (h : Gives g work accepted a g₁)
    (hnext : Gives g₁ (next a) accepted' b g₂) :
    Gives g (work >>= next) (accepted ∧ accepted') b g₂ := by
  constructor
  · rintro ⟨ha, ha'⟩ events
    obtain ⟨events₁, hrun⟩ := h.done ha events
    obtain ⟨events₂, hthen⟩ := hnext.done ha' events₁
    exact ⟨events₂, by rw [EStateM.run_bind, hrun]; exact hthen⟩
  · intro hno events
    by_cases ha : accepted
    · obtain ⟨events₁, hrun⟩ := h.done ha events
      obtain ⟨e, d, hthen, he⟩ := hnext.refused (fun ha' => hno ⟨ha, ha'⟩) events₁
      exact ⟨e, d, by rw [EStateM.run_bind, hrun]; exact hthen, he⟩
    · obtain ⟨e, d, hrun, he⟩ := h.refused ha events
      exact ⟨e, d, by rw [EStateM.run_bind, hrun], he⟩

/-- Work whose answer is put into another form. -/
lemma Gives.bind_pure (h : Gives g work accepted a g₁) (f : α → β) :
    Gives g (work >>= fun x => pure (f x)) accepted (f a) g₁ :=
  (h.bind (gives_pure (f a))).congr (by simp)

/-- A check that passes in front of other work. -/
lemma gives_check_bind {x : Except Error α} {next : α → Edit β} {b : β} (hx : x = .ok a)
    (h : Gives g (next a) accepted b g₁) : Gives g (check x >>= next) accepted b g₁ := by
  subst hx
  exact h

/-- Asking for a stream. -/
lemma step_gives {q : Request} {s : Stream}
    (hstream : ∀ t g', g.serve q = .ok (t, g') → t = s) :
    Gives g (step fun g => g.serve q) (g.Grants q) s (g.served q) := by
  constructor
  · intro h events
    obtain ⟨t, hserve⟩ := Graph.serve_of_grants h
    obtain rfl := hstream t _ hserve
    exact ⟨events, step_run_of_ok hserve⟩
  · intro h events
    rw [step_run]
    cases hserve : g.serve q with
    | ok r => exact (h ⟨r, hserve⟩).elim
    | error e => exact ⟨e, ⟨g, events⟩, rfl, Graph.spares_serve q e hserve⟩

/-- Asking for a stream from outside. -/
lemma source_gives (l : Label) :
    Gives g (source l.text) (g.Grants (.source l.text)) ⟨g.id, .external l, .filterable⟩
      (g.served (.source l.text)) := by
  refine step_gives (q := .source l.text) fun t g' h => ?_
  obtain ⟨hbind, rfl⟩ := Graph.serve_source_eq_ok h
  rw [(Graph.bind_rest hbind).1]

/-- Asking for a pad. -/
lemma request_gives (node index : Nat) (text : Option String) :
    Gives g (request node text (some index)) (g.Grants (.pad ⟨node, index⟩ text))
      ⟨g.id, .pad ⟨node, index⟩, .filterable⟩ (g.served (.pad ⟨node, index⟩ text)) := by
  refine step_gives (q := .pad ⟨node, index⟩ text) fun t g' h => ?_
  obtain ⟨-, label, -, hpad, rfl⟩ := Graph.serve_pad_eq_ok_iff.mp h
  rw [(Graph.requestPad_rest hpad).1]

/-- Adding a node that reads streams of the graph. -/
lemma addNode_gives (inputs : List Endpoint) (filter : String) (arity : Arity)
    (arguments : Arguments) :
    Gives g (addNode (inputs.map fun e => ⟨g.id, e, .filterable⟩) filter arity arguments)
      (g.nodes.size < 2 ^ 32 ∧ Node.IsFilterName filter ∧
        arity.accepts inputs.length = true)
      ⟨g.id, g.nodes.size⟩
      (g.append [⟨g.nodes.size, filter, inputs, arity, arguments⟩]) := by
  have hnext : ∀ n, g.nextNode (inputs.map fun e => ⟨g.id, e, .filterable⟩) filter arity arguments
      = .ok n ↔ (g.nodes.size < 2 ^ 32 ∧ Node.IsFilterName filter ∧
        arity.accepts inputs.length = true) ∧
        n = ⟨g.nodes.size, filter, inputs, arity, arguments⟩ := by
    intro n
    rw [Graph.nextNode_eq_ok_iff]
    simp [and_assoc, Function.comp_def]
  constructor
  · intro h events
    rw [addNode_run, (hnext _).mpr ⟨h, rfl⟩]
    exact ⟨_, rfl⟩
  · intro h events
    rw [addNode_run]
    cases hn : g.nextNode _ filter arity arguments with
    | ok n => exact (h ((hnext n).mp hn).1).elim
    | error e => exact ⟨e, _, rfl, Graph.spares_nextNode _ _ _ _ e hn⟩

end Edit

end MediaGraph
