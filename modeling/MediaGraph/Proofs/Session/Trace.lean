import MediaGraph.Proofs.Expression.Reports
import MediaGraph.Proofs.Graph.Requests
import MediaGraph.Proofs.Session.Building

/-!
# The trace of a session

The trace is an exact record. Of every graph it holds one report for each node, in the order of the
nodes, whatever calls were refused on the way: also a description that is refused half-way leaves
behind just the nodes that it reported. A compilation adds no such report, but the labels that it
assigned and the size of what it wrote.

## Main definitions

* `MediaGraph.Node.report` — what is reported of a node.
* `MediaGraph.Edit.Logs` — work that reports the nodes that it adds, and nothing else.
* `MediaGraph.Session.reported` — what was reported about one graph.

## Main results

* `MediaGraph.Edit.ofCall_logs` — calls other than compilations do so.
* `MediaGraph.Client.Reachable.recorded` — the nodes of every graph are those that were reported.
* `MediaGraph.Client.trace_recorded` — the record as a whole.
-/

set_option autoImplicit false

namespace MediaGraph

/-- Whether an event reports a node that was made. -/
def Event.isBuilt : Event → Bool
  | .built _ _ _ _ => true
  | .compiling _ | .labelled _ _ _ | .compiled _ _ => false

/-- What is reported of a node when it is made. -/
def Node.report (n : Node) : Event := .built n.id n.filter n.arity n.inputs.length

@[simp] lemma Node.isBuilt_report (n : Node) : n.report.isBuilt = true := rfl

/-! ## Work that reports the nodes that it adds -/

/-- A draft comes from another one by some nodes, each of which was reported. -/
def Draft.Logged (d d' : Draft) : Prop :=
  ∃ added : List Node, d'.graph.nodes.toList = d.graph.nodes.toList ++ added ∧
    d'.events.toList = d.events.toList ++ added.map Node.report

namespace Draft.Logged

variable {d d' d'' : Draft}

/-- Without a node there is no report. -/
lemma of_nodes_eq (hnodes : d'.graph.nodes = d.graph.nodes) (hevents : d'.events = d.events) :
    d.Logged d' :=
  ⟨[], by simp [hnodes], by simp [hevents]⟩

lemma refl (d : Draft) : d.Logged d := of_nodes_eq rfl rfl

lemma trans (h : d.Logged d') (h' : d'.Logged d'') : d.Logged d'' := by
  obtain ⟨added, hnodes, hevents⟩ := h
  obtain ⟨added', hnodes', hevents'⟩ := h'
  refine ⟨added ++ added', ?_, ?_⟩
  · rw [hnodes', hnodes, List.append_assoc]
  · rw [hevents', hevents, List.map_append, List.append_assoc]

end Draft.Logged

namespace Edit

variable {α β : Type}

/-- Some work reports the nodes that it adds, one by one, and nothing else, whether it is refused on
the way or not. -/
def Logs (work : Edit α) : Prop :=
  ∀ d, match work.run d with
    | .ok _ d' | .error _ d' => d.Logged d'

/-- Doing nothing. -/
lemma logs_pure (a : α) : Logs (pure a) := fun d => .refl d

/-- Refusing. -/
lemma logs_throw (e : Error) : Logs (throw e : Edit α) := fun d => .refl d

/-- Work followed by other work. -/
lemma Logs.bind {work : Edit α} {next : α → Edit β} (h : Logs work) (hnext : ∀ a, Logs (next a)) :
    Logs (work >>= next) := by
  intro d
  have hwork := h d
  rw [EStateM.run_bind]
  split at hwork
  · next a d' hrun =>
    rw [hrun]
    have hthen := hnext a d'
    dsimp only
    split at hthen
    · next hlast => simpa [hlast] using hwork.trans hthen
    · next hlast => simpa [hlast] using hwork.trans hthen
  · next e d' hrun => simpa [hrun] using hwork

/-- The result of work put into another form. -/
lemma Logs.map {work : Edit α} {f : α → β} (h : Logs work) : Logs (f <$> work) := by
  rw [map_eq_pure_bind]
  exact h.bind fun a => logs_pure (f a)

lemma logs_check (x : Except Error α) : Logs (check x) := by
  cases x with
  | ok a => exact logs_pure a
  | error e => exact logs_throw e

lemma logs_graph : Logs graph := fun d => .refl d

/-- A step that leaves the nodes alone. -/
lemma logs_step {f : Graph → Except Error (α × Graph)}
    (h : ∀ g a g', f g = .ok (a, g') → g'.nodes = g.nodes) : Logs (step f) := by
  intro d
  rw [step_run]
  cases hf : f d.graph with
  | ok r => exact .of_nodes_eq (h d.graph r.1 r.2 hf) rfl
  | error e => exact .refl d

/-- Asking for a stream from outside. -/
lemma source_logs (text : String) : Logs (source text) := by
  refine logs_step fun g s g' h => ?_
  obtain ⟨l, -, hbind, -⟩ := Graph.source_eq_ok h
  exact (Graph.bind_rest hbind).2.1

/-- Asking for a pad of a node. -/
lemma request_logs (node : Nat) (label : Option String) (pad : Option Nat) :
    Logs (request node label pad) := by
  refine logs_step fun g s g' h => ?_
  obtain ⟨-, l, -, hpad, -⟩ := Graph.request_eq_ok_iff.mp h
  exact (Graph.requestPad_rest hpad).2

/-- Adding a node: it is reported with its number, its filter, its arity and the number of its
inputs. -/
lemma addNode_logs (inputs : List Stream) (filter : String) (arity : Arity)
    (arguments : Arguments) : Logs (addNode inputs filter arity arguments) := by
  intro d
  rw [addNode_run]
  cases hn : d.graph.nextNode inputs filter arity arguments with
  | error e => exact .refl d
  | ok n =>
    obtain ⟨-, -, -, -, rfl⟩ := Graph.nextNode_eq_ok_iff.mp hn
    refine ⟨[⟨d.graph.nodes.size, filter, inputs.map Stream.endpoint, arity, arguments⟩], ?_, ?_⟩
    · exact Array.toList_push
    · simp [Node.report]

/-! ## Calls -/

lemma addFilter_logs (inputs : List Stream) (filter : String) (parts : List Arguments) :
    Logs (addFilter inputs filter parts) := by
  have hlabel : ∀ text, Logs (freeLabel text) := fun text => by
    unfold freeLabel
    split
    · exact logs_pure none
    · exact (logs_check _).bind fun l => logs_graph.bind fun g =>
        (logs_check _).bind fun _ => logs_pure (some l)
  exact (hlabel _).bind fun l => (addNode_logs inputs filter .any _).bind fun h =>
    request_logs h.node _ none

lemma addConcat_logs (inputs : List Stream) (parts : List Arguments) :
    Logs (addConcat inputs parts) :=
  (logs_check _).bind fun arguments => (addNode_logs inputs "concat" .any arguments).bind fun h =>
    request_logs h.node none none

end Edit

namespace Description

open Edit

variable {scope : Scope}

lemma Scope.resolve_logs (scope : Scope) (r : String) : Logs (scope.resolve r) := by
  unfold Scope.resolve
  split
  · exact logs_pure _
  · refine (logs_check _).bind fun reference => ?_
    split
    · exact request_logs _ none _
    · exact logs_throw _

lemma Scope.resolveAll_logs (scope : Scope) (rs : List String) : Logs (scope.resolveAll rs) := by
  induction rs with
  | nil => exact logs_pure []
  | cons r rest ih =>
    exact (scope.resolve_logs r).bind fun s => ih.bind fun ss => logs_pure (s :: ss)

lemma addSources_logs (ls : List Label) : Logs (addSources ls) := by
  induction ls with
  | nil => exact logs_pure []
  | cons l rest ih =>
    exact (source_logs l.text).bind fun s => ih.bind fun ss => logs_pure ((l.text, s) :: ss)

lemma addOutputs_logs (node : Nat) (os : List OutputEntry) : Logs (addOutputs node os) := by
  induction os with
  | nil => exact logs_pure ()
  | cons o rest ih => exact (request_logs node o.label (some o.pad)).bind fun _ => ih

lemma addNodes_logs (scope : Scope) (ns : List NodeEntry) : Logs (addNodes scope ns) := by
  induction ns generalizing scope with
  | nil => exact logs_pure scope
  | cons n rest ih =>
    have hnode : Logs (addNode scope n) :=
      (scope.resolveAll_logs n.inputs).bind fun inputs =>
        (addNode_logs inputs n.filter n.requiredArity _).bind fun h =>
          (addOutputs_logs h.node n.outputs).bind fun _ => logs_pure h
    exact hnode.bind fun h => ih _

/-- Building a description: the nodes that were added before it was refused stay, and they were
reported. -/
theorem build_logs (d : Description) : Logs d.build :=
  (logs_check d.validate).bind fun _ => (addSources_logs d.sources).bind fun sources =>
    (addNodes_logs ⟨sources, []⟩ d.nodes).bind fun scope => scope.resolveAll_logs d.outputs

end Description

/-- **Every call but a compilation reports the nodes that it adds, and nothing else.** -/
theorem Edit.ofCall_logs {call : Call}
    (hcall : ∀ i terminals settings, call ≠ .compile i terminals settings) :
    Logs (ofCall call) := by
  cases call with
  | source i label => exact (source_logs label).map
  | node i inputs filter arity arguments =>
    exact (addNode_logs inputs filter arity arguments).map
  | multiOutput i inputs filter parts => exact (addNode_logs inputs filter .any _).map
  | filter i inputs filter parts => exact (addFilter_logs inputs filter parts).map
  | concat i inputs parts => exact (addConcat_logs inputs parts).map
  | apply s filter parts =>
    exact ((logs_check _).bind fun _ => addFilter_logs [s] filter parts).map
  | applyWith s others filter arity arguments =>
    exact ((logs_check _).bind fun _ => addNode_logs (s :: others) filter arity arguments).map
  | split s => exact ((logs_check _).bind fun _ => addNode_logs [s] "split" _ _).map
  | asplit s => exact ((logs_check _).bind fun _ => addNode_logs [s] "asplit" _ _).map
  | concatAfter s others parts =>
    exact ((logs_check _).bind fun _ => addConcat_logs (others ++ [s]) parts).map
  | output h label pad => exact (request_logs h.node label pad).map
  | sink s => exact logs_pure _
  | build i d => exact d.build_logs.map
  | compile i terminals settings => exact absurd rfl (hcall i terminals settings)

/-! ## The trace of a session -/

namespace Session

/-- What was reported about the graph with a number. -/
def reported (s : Session) (i : Nat) : List Event :=
  (s.trace.filter fun x => x.1 == i).map Prod.snd

/-- Whether the nodes that were reported of every graph are its nodes, in their order. -/
def Recorded (s : Session) : Prop :=
  ∀ i, (s.reported i).filter Event.isBuilt = (s.graph i).nodes.toList.map Node.report

variable {s : Session} {call : Call}

/-- Work on a graph adds its reports to those about this graph. -/
lemma reported_update (s : Session) (target : Nat) (d : Draft) (i : Nat) :
    (s.update target d).reported i =
      s.reported i ++ if i = target then d.events.toList else [] := by
  have hown : (fun x : Nat × Event => x.1 == i) ∘ (fun e => (target, e)) =
      fun _ => target == i := rfl
  rw [reported, update, List.filter_append, List.map_append, List.filter_map, hown]
  by_cases h : i = target
  · simp [h, reported, Function.comp_def]
  · simp [h, Ne.symm h, reported]

/-- Work that reports its nodes keeps the record. -/
lemma Recorded.update (h : s.Recorded) {target : Nat} {d : Draft}
    (hd : Draft.Logged ⟨s.graph target, #[]⟩ d) : (s.update target d).Recorded := by
  obtain ⟨added, hnodes, hevents⟩ := hd
  intro i
  rw [reported_update, List.filter_append, h i]
  by_cases hi : i = target
  · subst hi
    have hall : (added.map Node.report).filter Event.isBuilt = added.map Node.report := by
      rw [List.filter_eq_self, List.forall_mem_map]
      exact fun n _ => n.isBuilt_report
    simp [Session.update, hevents, hnodes, hall]
  · simp [Session.update, hi]

/-- Work that makes no node and reports none keeps the record. -/
lemma Recorded.update_same (h : s.Recorded) {target : Nat} {events : Array Event}
    (hevents : events.toList.filter Event.isBuilt = []) :
    (s.update target ⟨s.graph target, events⟩).Recorded := by
  intro i
  rw [reported_update, List.filter_append, h i]
  by_cases hi : i = target
  · simp [Session.update, hi, hevents]
  · simp [Session.update, hi]

/-- A call that is no compilation reports the nodes that it adds. -/
lemma exists_logged (s : Session)
    (hcall : ∀ i terminals settings, call ≠ .compile i terminals settings) :
    ∃ d, Draft.Logged ⟨s.graph call.target, #[]⟩ d ∧
      (s.perform call).2 = s.update call.target d := by
  have hlogs := Edit.ofCall_logs hcall ⟨s.graph call.target, #[]⟩
  rw [perform]
  split at hlogs
  · next a d hrun => exact ⟨d, hlogs, by rw [hrun]⟩
  · next e d hrun => exact ⟨d, hlogs, by rw [hrun]⟩

/-- A compilation only reports. -/
lemma perform_compile {i : Nat} {terminals : List Stream} {settings : Settings}
    {outcome : Except Error Expression} {events : Array Event}
    (h : ((s.graph i).compile terminals settings).run #[] = Report.ended outcome events) :
    s.perform (.compile i terminals settings) =
      (outcome.map Answer.expression, s.update i ⟨s.graph i, events⟩) := by
  simp only [perform, Edit.ofCall, Call.target, map_eq_pure_bind, EStateM.run_bind,
    Edit.ofReport_run, h]
  cases outcome <;> rfl

end Session

namespace Client

variable {c : Client} {call : Call}

/-- No report of a compilation is that of a node. -/
lemma filter_isBuilt_of_tells {g : Graph} {terminals : List Stream} {settings : Settings}
    {outcome : Except Error Expression} {labels : List (Pad × Label)} {summary : List Event}
    (h : g.Tells terminals settings outcome labels summary) :
    (.compiling terminals.length :: labels.map Graph.labelEvent ++ summary).filter
      Event.isBuilt = [] := by
  have hlabels : (labels.map Graph.labelEvent).filter Event.isBuilt = [] := by
    rw [List.filter_eq_nil_iff, List.forall_mem_map]
    exact fun x _ => Bool.false_ne_true
  have hsummary : summary.filter Event.isBuilt = [] := by
    cases outcome with
    | ok e => rw [(h.done e rfl).2.2]; rfl
    | error err => rw [(h.refused err rfl).1]; rfl
  rw [List.cons_append, List.filter_cons, List.filter_append, hlabels, hsummary]
  rfl

/-- What a client's compilation is answered and what it adds to the trace. -/
lemma Sound.exists_tells (hc : c.Sound) {i : Nat} {terminals : List Stream} {settings : Settings}
    (hholds : c.Holds (.compile i terminals settings)) :
    ∃ outcome labels summary,
      (c.session.graph i).Tells terminals settings outcome labels summary ∧
      c.session.perform (.compile i terminals settings) =
        (outcome.map Answer.expression, c.session.update i ⟨c.session.graph i,
          (.compiling terminals.length :: labels.map Graph.labelEvent ++ summary).toArray⟩) := by
  obtain ⟨outcome, labels, summary, hrun, htells⟩ :=
    Graph.compile_tells (hc.wellFormed i) (hc.knows_terminal hholds) settings
  exact ⟨outcome, labels, summary, htells, Session.perform_compile hrun⟩

/-- A call keeps the record. -/
lemma Sound.recorded_after (hc : c.Sound) (hholds : c.Holds call) (h : c.session.Recorded) :
    (c.after call).session.Recorded := by
  rw [session_after]
  -- only compilations report more than the nodes that are added
  by_cases hcall : ∀ i terminals settings, call ≠ .compile i terminals settings
  · obtain ⟨d, hlogged, hafter⟩ := c.session.exists_logged hcall
    rw [hafter]
    exact h.update hlogged
  · push Not at hcall
    obtain ⟨i, terminals, settings, rfl⟩ := hcall
    obtain ⟨outcome, labels, summary, htells, hperform⟩ := hc.exists_tells hholds
    rw [hperform]
    exact h.update_same (filter_isBuilt_of_tells htells)

/-- **The nodes of every graph are what was reported**, along every run. -/
theorem Reachable.recorded (hc : c.Reachable) : c.session.Recorded := by
  induction hc with
  | refl => exact fun i => rfl
  | tail hrun hstep ih =>
    cases hstep with
    | call call holds => exact (Reachable.sound hrun).recorded_after holds ih

/-- The reports of the nodes of a graph bear their places. -/
lemma map_report_nodes {g : Graph} (hg : g.WellFormed) :
    g.nodes.toList.map Node.report =
      g.nodes.toList.mapIdx fun k n => .built k n.filter n.arity n.inputs.length := by
  refine List.ext_getElem (by simp) fun k hk _ => ?_
  have hsize : k < g.nodes.size := by simpa using hk
  have hid : g.nodes[k].id = k := hg.node_id (Array.getElem?_eq_getElem hsize)
  simp [Node.report, hid]

/-- **The trace is an exact record.** Along every run of calls the nodes of a graph are those that
were reported, each with its place, its filter, its arity and the number of its inputs. A call that
is no compilation reports the nodes that it adds and nothing else, even if it is refused half-way;
one of those that add a single node reports nothing if it is refused. A compilation reports that it
begins, with the number of its terminals, then labels for the first of the pads that need one, and
at the end the size of the expression if there is one: `Graph.Tells` says which labels these are,
and that they are none if it is refused for anything but an overflow.

**Proof sketch.** Calls other than compilations are put together from pieces that report each node
as they add it (`Edit.ofCall_logs`), and compilations report no node (`filter_isBuilt_of_tells`), so
every call keeps the record (`Sound.recorded_after`) and it holds along a run
(`Reachable.recorded`). What a compilation reports is settled by its graph
(`Graph.compile_tells`). -/
theorem trace_recorded (hc : c.Reachable) :
    (∀ i, (c.session.reported i).filter Event.isBuilt =
      (c.session.graph i).nodes.toList.mapIdx fun k n =>
        .built k n.filter n.arity n.inputs.length) ∧
    (∀ call : Call, (∀ i terminals settings, call ≠ .compile i terminals settings) →
      ∃ added : List Node,
        ((c.after call).session.graph call.target).nodes.toList =
          (c.session.graph call.target).nodes.toList ++ added ∧
        (c.after call).session.trace =
          c.session.trace ++ added.map fun n =>
            (call.target, .built n.id n.filter n.arity n.inputs.length)) ∧
    (∀ call e, call.addsNode → c.answer call = .error e →
      (c.after call).session.trace = c.session.trace) ∧
    ∀ i terminals settings, c.Holds (.compile i terminals settings) →
      ∃ outcome labels summary,
        c.answer (.compile i terminals settings) = outcome.map Answer.expression ∧
        (c.after (.compile i terminals settings)).session.trace =
          c.session.trace ++
            ((.compiling terminals.length :: labels.map Graph.labelEvent) ++ summary).map
              (Prod.mk i) ∧
        (c.session.graph i).Tells terminals settings outcome labels summary := by
  have hsound := hc.sound
  refine ⟨fun i => ?_, fun call hcall => ?_, fun call e hcall he => ?_,
    fun i terminals settings hholds => ?_⟩
  · rw [hc.recorded i, map_report_nodes (hsound.wellFormed i)]
  · obtain ⟨d, ⟨added, hnodes, hevents⟩, hafter⟩ := c.session.exists_logged hcall
    rw [session_after, hafter]
    refine ⟨added, by simpa [Session.update] using hnodes, ?_⟩
    simp [Session.update, hevents, Node.report]
  · -- a call that was refused stands for nothing that the graph accepts
    have hno : ¬ ∃ x, call.Plans x ∧ (c.session.graph call.target).Accepts x := by
      rintro ⟨x, hx, haccept⟩
      have hperform := Session.perform_of_accepts (hsound.wellFormed _) hcall hx haccept
      simp [answer, hperform] at he
    obtain ⟨e', hperform⟩ := Session.perform_of_not_accepts (hsound.wellFormed _) hcall hno
    rw [session_after, hperform]
  · obtain ⟨outcome, labels, summary, htells, hperform⟩ := hsound.exists_tells hholds
    refine ⟨outcome, labels, summary, by rw [answer, hperform], ?_, htells⟩
    rw [session_after, hperform]
    rfl

/-- After the sample run three nodes were reported. A label that is in use lets no further node be
reported, and compiling reports the labels of the three pads that have none. -/
theorem trace_sample :
    (start.run sampleCalls).Reachable ∧
    (start.run sampleCalls).Holds (.compile 0 sampleTerminals {}) ∧
    ((start.run sampleCalls).session.reported 0).filter Event.isBuilt =
      [.built 0 "split" (.exact 1) 1, .built 1 "scale" .any 1, .built 2 "overlay" .any 2] ∧
    ((start.run sampleCalls).after (flipCall "l1")).session.trace =
      (start.run sampleCalls).session.trace ∧
    ∃ labels, ((start.run sampleCalls).session.graph 0).Tells sampleTerminals {}
      (.ok sampleExpression) labels [.compiled 3 58] := by
  have hrun := reachable_sample
  have hholds := holds_sample {}
  obtain ⟨hbuilt, -, hrefused, hcompile⟩ := trace_recorded hrun
  refine ⟨hrun, hholds, ?_, hrefused (flipCall "l1") (.duplicateLabel "l1") rfl ?_, ?_⟩
  · rw [hbuilt]
    decide +kernel
  · decide +kernel
  · obtain ⟨outcome, labels, summary, hanswer, -, htells⟩ := hcompile 0 sampleTerminals {} hholds
    obtain rfl : outcome = .ok sampleExpression := by
      rw [answer_sample] at hanswer
      cases outcome with
      | ok e => simpa [Except.map] using hanswer.symm
      | error err => simp [Except.map] at hanswer
    have hsummary : summary = [.compiled 3 58] := (htells.done _ rfl).2.2.trans (by decide +kernel)
    exact ⟨labels, hsummary ▸ htells⟩

end Client

end MediaGraph
