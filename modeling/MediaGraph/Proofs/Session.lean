import MediaGraph.Proofs.Description.Assembly
import MediaGraph.Session

/-!
# Runs of calls

A client makes calls on the graphs of a session, in any order. It can hand to a call only streams
and handles that calls answered with before, also those of other graphs, and calls may be refused.
Whatever it does, its graphs stay well formed, they only grow, and what it holds stays known to
them.

## Main definitions

* `MediaGraph.Client` — a session with the streams and handles that calls answered with.
* `MediaGraph.Client.Step`, `MediaGraph.Client.Reachable` — one call, and any run of calls from the
  start.
* `MediaGraph.Client.Sound` — the invariant of clients.

## Main results

* `MediaGraph.Client.Sound.grows` — a call lets every graph grow.
* `MediaGraph.Client.Reachable.sound` — the invariant holds along every run.
* `MediaGraph.Client.wellFormed_of_reachable` — what it says of the graphs, spelt out.
-/

set_option autoImplicit false

namespace MediaGraph

/-! ## What calls use and answer with -/

/-- The streams that a call is given. -/
def Call.usedStreams : Call → List Stream
  | .node _ inputs _ _ _ | .multiOutput _ inputs _ _ | .filter _ inputs _ _
  | .concat _ inputs _ | .compile _ inputs _ => inputs
  | .applyWith s others _ _ _ | .concatAfter s others _ => s :: others
  | .apply s _ _ | .split s | .asplit s | .sink s => [s]
  | .source _ _ | .output _ _ _ | .build _ _ => []

/-- The handles that a call is given. -/
def Call.usedHandles : Call → List Handle
  | .output h _ _ => [h]
  | _ => []

/-- The streams that a call answered with. -/
def Answer.givenStreams : Answer → List Stream
  | .stream s => [s]
  | .streams ss => ss
  | .handle _ | .expression _ => []

/-- The handles that a call answered with. -/
def Answer.givenHandles : Answer → List Handle
  | .handle h => [h]
  | _ => []

/-! ## A call lets its graph grow -/

namespace Edit

variable {g : Graph}

/-- Work that only reports changes nothing but the events. -/
theorem ofReport_run {α : Type} (work : Graph → Report α) (d : Draft) :
    (ofReport work).run d =
      match (work d.graph).run d.events with
      | .ok a events => .ok a { d with events := events }
      | .error e events => .error e { d with events := events } := by
  change (match (work d.graph).run d.events with
    | .ok a events => (do set { d with events := events }; return a : Edit α)
    | .error e events => (do set { d with events := events }; throw e : Edit α)).run d = _
  cases (work d.graph).run d.events <;> rfl

/-- Work that only reports leaves the graph as it is. -/
lemma ofReport_extends {α : Type} {work : Graph → Report α} {post : α → Graph → Prop}
    (h : ∀ a, post a g) : Extends g (ofReport work) post := by
  intro events
  rw [ofReport_run]
  cases (work g).run events with
  | ok a events => exact ⟨.refl g, h a⟩
  | error e events => exact .refl g

/-- A call lets its graph grow, and the graph has all that it answers with. -/
theorem ofCall_extends (hg : g.WellFormed) {call : Call} (htarget : call.target = g.id)
    (hstreams : ∀ s ∈ call.usedStreams, s.graph = g.id → g.Knows s.endpoint)
    (hhandles : ∀ h ∈ call.usedHandles, h.graph = g.id → h.node < g.nodes.size) :
    Extends g (ofCall call) fun a g' =>
      (∀ s ∈ a.givenStreams, g'.HasStream s) ∧ ∀ h ∈ a.givenHandles, g'.HasHandle h := by
  have stream : ∀ {work : Edit Stream}, Extends g work (fun s g' => g'.HasStream s) →
      Extends g (Answer.stream <$> work) fun a g' =>
        (∀ s ∈ a.givenStreams, g'.HasStream s) ∧ ∀ h ∈ a.givenHandles, g'.HasHandle h :=
    fun h => (h.mono fun s g' _ hs => by
      simpa [Answer.givenStreams, Answer.givenHandles] using hs).map
  have handle : ∀ {work : Edit Handle}, Extends g work (fun h g' => g'.HasHandle h) →
      Extends g (Answer.handle <$> work) fun a g' =>
        (∀ s ∈ a.givenStreams, g'.HasStream s) ∧ ∀ h ∈ a.givenHandles, g'.HasHandle h :=
    fun h => (h.mono fun s g' _ hs => by
      simpa [Answer.givenStreams, Answer.givenHandles] using hs).map
  cases call with
  | source i label => exact stream source_extends
  | node i inputs filter arity arguments => exact handle (addNode_extends hstreams)
  | multiOutput i inputs filter parts => exact handle (addMultiOutput_extends hstreams)
  | filter i inputs filter parts => exact stream (addFilter_extends hg hstreams)
  | concat i inputs parts => exact stream (addConcat_extends hg hstreams)
  | apply s filter parts =>
    exact stream (apply_extends hg (hstreams s (by simp [Call.usedStreams])))
  | applyWith s others filter arity arguments => exact handle (applyWith_extends hstreams)
  | split s => exact handle (duplicate_extends (hstreams s (by simp [Call.usedStreams])))
  | asplit s => exact handle (duplicate_extends (hstreams s (by simp [Call.usedStreams])))
  | concatAfter s others parts =>
    refine stream (concatAfter_extends hg fun t ht => hstreams t ?_)
    simpa [Call.usedStreams, or_comm] using ht
  | output h label pad =>
    exact stream (request_extends hg (hhandles h (by simp [Call.usedHandles]) htarget))
  | sink s =>
    have hs := hstreams s (by simp [Call.usedStreams]) htarget
    refine extends_pure ⟨fun t ht => ?_, by simp [Answer.givenHandles]⟩
    obtain rfl : t = s.sink := by simpa [Answer.givenStreams] using ht
    exact ⟨htarget, hs⟩
  | build i d =>
    refine ((Description.build_extends hg d).mono fun ss g' _ hss => ?_).map
    exact ⟨hss, by simp [Answer.givenHandles]⟩
  | compile i terminals settings =>
    refine (ofReport_extends fun e => ?_).map
    simp [Answer.givenStreams, Answer.givenHandles]

end Edit

/-! ## Clients -/

/-- A session at work, with the streams and handles that calls answered with so far. -/
structure Client where
  /-- The session. -/
  session : Session
  /-- The streams that were answered. -/
  streams : List Stream
  /-- The handles that were answered. -/
  handles : List Handle

namespace Client

/-- The client before the first call. -/
def start : Client := ⟨.start, [], []⟩

/-- What a call is answered now. -/
def answer (c : Client) (call : Call) : Except Error Answer := (c.session.perform call).1

/-- Whether a client has all that a call is given. -/
def Holds (c : Client) (call : Call) : Prop :=
  (∀ s ∈ call.usedStreams, s ∈ c.streams) ∧ ∀ h ∈ call.usedHandles, h ∈ c.handles

instance (c : Client) (call : Call) : Decidable (c.Holds call) :=
  inferInstanceAs (Decidable (_ ∧ _))

/-- The client after a call. If the call is refused nothing is answered, but what it did until then
stays done. -/
def after (c : Client) (call : Call) : Client :=
  match c.answer call with
  | .ok a => ⟨(c.session.perform call).2, a.givenStreams ++ c.streams, a.givenHandles ++ c.handles⟩
  | .error _ => ⟨(c.session.perform call).2, c.streams, c.handles⟩

/-- The session after a call is the one that the call leaves behind. -/
lemma session_after (c : Client) (call : Call) :
    (c.after call).session = (c.session.perform call).2 := by
  unfold after
  split <;> rfl

/-- Calls that do the same work are answered the same and leave the same client. -/
lemma congr_of_perform_eq {c : Client} {call call' : Call}
    (h : c.session.perform call = c.session.perform call') :
    c.answer call = c.answer call' ∧ c.after call = c.after call' := by
  have hanswer : c.answer call = c.answer call' := by rw [answer, answer, h]
  exact ⟨hanswer, by rw [after, after, hanswer, h]⟩

/-- One call with what the client has. -/
inductive Step (c : Client) : Client → Prop where
  /-- The call may be any. -/
  | call (call : Call) (holds : c.Holds call) : Step c (c.after call)

/-- Whether a client can get so far by calls. -/
def Reachable (c : Client) : Prop := Relation.ReflTransGen Step start c

/-- The invariant of clients. -/
structure Sound (c : Client) : Prop where
  /-- Every graph stands at the place of its number. -/
  graph_id : ∀ i, (c.session.graph i).id = i
  /-- Every graph is well formed. -/
  wellFormed : ∀ i, (c.session.graph i).WellFormed
  /-- A stream comes from an endpoint that its graph knows. -/
  streams : ∀ s ∈ c.streams, (c.session.graph s.graph).Knows s.endpoint
  /-- A handle stands for a node of its graph. -/
  handles : ∀ h ∈ c.handles, h.node < (c.session.graph h.graph).nodes.size

/-- The invariant holds before the first call. -/
theorem sound_start : start.Sound where
  graph_id _ := rfl
  wellFormed i := Graph.wellFormed_empty i
  streams := by simp [start]
  handles := by simp [start]

namespace Sound

variable {c : Client}

/-- What a call does to the graph that it acts on. -/
lemma ofCall_extends (hc : c.Sound) {call : Call} (hcall : c.Holds call) :
    Edit.Extends (c.session.graph call.target) (Edit.ofCall call) fun a g' =>
      (∀ s ∈ a.givenStreams, g'.HasStream s) ∧ ∀ h ∈ a.givenHandles, g'.HasHandle h := by
  refine Edit.ofCall_extends (hc.wellFormed _) (hc.graph_id _).symm ?_ ?_
  · intro s hs hsame
    rw [hc.graph_id] at hsame
    exact hsame ▸ hc.streams s (hcall.1 s hs)
  · intro h hh hsame
    rw [hc.graph_id] at hsame
    exact hsame ▸ hc.handles h (hcall.2 h hh)

/-- A call lets every graph grow, and the graph it acts on has all that it answers with. -/
lemma perform (hc : c.Sound) {call : Call} (hcall : c.Holds call) :
    (∀ i, (c.session.graph i).Grows ((c.after call).session.graph i)) ∧
    ∀ a, c.answer call = .ok a →
      (∀ s ∈ a.givenStreams, ((c.after call).session.graph call.target).HasStream s) ∧
      ∀ h ∈ a.givenHandles, ((c.after call).session.graph call.target).HasHandle h := by
  have hextends := hc.ofCall_extends hcall #[]
  rw [session_after, answer, Session.perform]
  have hgrows : ∀ d : Draft, (c.session.graph call.target).Grows d.graph →
      ∀ i, (c.session.graph i).Grows ((c.session.update call.target d).graph i) := by
    intro d hd i
    by_cases hi : i = call.target
    · subst hi
      simpa [Session.update] using hd
    · simpa [Session.update, hi] using Graph.Grows.refl _
  split at hextends
  · next a d hrun =>
    rw [hrun]
    refine ⟨hgrows d hextends.1, fun b hb => ?_⟩
    obtain rfl : a = b := by simpa using hb
    simpa [Session.update] using hextends.2
  · next e d hrun =>
    rw [hrun]
    exact ⟨hgrows d hextends, fun b hb => by simp at hb⟩

/-- A call lets every graph grow. -/
theorem grows (hc : c.Sound) {c' : Client} (h : Step c c') (i : Nat) :
    (c.session.graph i).Grows (c'.session.graph i) := by
  cases h with
  | call call holds => exact (hc.perform holds).1 i

/-- A call keeps the invariant. -/
theorem step (hc : c.Sound) {c' : Client} (h : Step c c') : c'.Sound := by
  have hgrows := hc.grows h
  have hid : ∀ i, (c'.session.graph i).id = i := fun i =>
    (hgrows i).within.id.trans (hc.graph_id i)
  cases h with
  | call call holds =>
    have hanswer := (hc.perform holds).2
    refine ⟨hid, fun i => (hgrows i).wellFormed (hc.wellFormed i), ?_, ?_⟩
    · intro s hs
      have hold : s ∈ c.streams →
          ((c.after call).session.graph s.graph).Knows s.endpoint := fun hs =>
        (hgrows _).within.knows (hc.streams s hs)
      unfold after at hs
      split at hs
      · next a ha =>
        rcases List.mem_append.mp hs with hs | hs
        · obtain ⟨hsame, hknows⟩ := (hanswer a ha).1 s hs
          rw [hid] at hsame
          exact hsame ▸ hknows
        · exact hold hs
      · exact hold hs
    · intro h hh
      have hold : h ∈ c.handles →
          h.node < ((c.after call).session.graph h.graph).nodes.size := fun hh =>
        (hc.handles h hh).trans_le (hgrows _).within.size_le
      unfold after at hh
      split at hh
      · next a ha =>
        rcases List.mem_append.mp hh with hh | hh
        · obtain ⟨hsame, hnode⟩ := (hanswer a ha).2 h hh
          rw [hid] at hsame
          exact hsame ▸ hnode
        · exact hold hh
      · exact hold hh

end Sound

/-- The invariant holds along every run. -/
theorem Reachable.sound {c : Client} (h : c.Reachable) : c.Sound := by
  induction h with
  | refl => exact sound_start
  | tail _ hstep ih => exact ih.step hstep

/-! ## Runs written out -/

/-- The client after a list of calls. -/
def run (c : Client) (calls : List Call) : Client := calls.foldl after c

/-- Whether a client has, at each call of a list, all that the call is given. -/
def Allows (c : Client) : List Call → Prop
  | [] => True
  | call :: rest => c.Holds call ∧ (c.after call).Allows rest

instance decidableAllows : (c : Client) → (calls : List Call) → Decidable (c.Allows calls)
  | _, [] => isTrue trivial
  | c, call :: rest =>
    have := decidableAllows (c.after call) rest
    inferInstanceAs (Decidable (_ ∧ _))

/-- A client gets anywhere by calls that it has all for. -/
theorem Reachable.run {c : Client} (hc : c.Reachable) {calls : List Call}
    (h : c.Allows calls) : (c.run calls).Reachable := by
  induction calls generalizing c with
  | nil => exact hc
  | cons call rest ih => exact ih (hc.tail (.call call h.1)) h.2

/-! ## The invariant of graphs along every run -/

/-- **Every graph that calls can build is well formed**, whatever calls were refused on the way and
whatever streams of other graphs they were given: a node has its place as its number, a filter name
and the inputs that its arity accepts, it reads only pads of nodes before it that were asked for,
and endpoints outside under their own labels; pads that were asked for belong to nodes and are below
the limit; and labels name pads exactly if these were asked for under them. Streams and handles
that calls answered with stay good.

**Proof sketch.** A call lets every graph grow (`Client.Sound.grows`), and growing keeps a graph
well formed (`Graph.Grows.wellFormed`): the four changes of a graph are looked at one by one. -/
theorem wellFormed_of_reachable {c : Client} (hc : c.Reachable) :
    (∀ i, (c.session.graph i).id = i ∧ (c.session.graph i).WellFormed) ∧
    (∀ s ∈ c.streams, (c.session.graph s.graph).Knows s.endpoint) ∧
    ∀ h ∈ c.handles, ∃ n, (c.session.graph h.graph).node? h.node = some n := by
  have hsound := hc.sound
  refine ⟨fun i => ⟨hsound.graph_id i, hsound.wellFormed i⟩, hsound.streams, fun h hh => ?_⟩
  exact ⟨_, Array.getElem?_eq_getElem (hsound.handles h hh)⟩

/-- A run on two graphs: a picture is split, one copy is named and scaled, and the other is laid
over it. On the way a label is given twice, a pad is asked for under another label, and a stream
is handed to a graph that it does not belong to; these calls are refused. -/
def sampleCalls : List Call :=
  let picture : Stream := ⟨0, .external ⟨"0:v", by decide⟩, .filterable⟩
  let copy (pad : Nat) : Stream := ⟨0, .pad ⟨0, pad⟩, .filterable⟩
  [.source 0 "0:v", .split picture, .output ⟨0, 0⟩ (some "l1") (some 1), .output ⟨0, 0⟩ none none,
    .output ⟨0, 0⟩ (some "l1") (some 2), .output ⟨0, 0⟩ (some "l2") (some 1),
    .filter 1 [picture] "null" [], .apply (copy 1) "scale" [⟨[.text "2:3"], ∅⟩],
    .filter 0 [copy 0, ⟨0, .pad ⟨1, 0⟩, .filterable⟩] "overlay" [], .source 0 "l5"]

/-- A client can make these calls. -/
lemma reachable_sample : (start.run sampleCalls).Reachable :=
  Reachable.run (c := start) .refl (by decide +kernel)

/-- The graphs of a run with refused calls are well formed. -/
theorem wellFormed_sample :
    (start.run sampleCalls).Reachable ∧
    (start.run sampleCalls).streams.length = 6 ∧
    ∀ i, ((start.run sampleCalls).session.graph i).WellFormed := by
  have hrun := reachable_sample
  exact ⟨hrun, by decide +kernel, fun i => ((wellFormed_of_reachable hrun).1 i).2⟩

end Client

end MediaGraph
