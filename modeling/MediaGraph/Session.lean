import MediaGraph.Description.Assembly
import MediaGraph.Expression

/-!
# Sessions

A session is work on any number of graphs, by calls made one after the other. Streams and handles
that one call answers with are what later calls are given, also calls on other graphs, which then
refuse them. Every call acts on one graph.

## Main definitions

* `MediaGraph.Session` — the graphs by number, and all reports with the number of the graph each
  is about.
* `MediaGraph.Call` — what can be asked for; `Call.target` is the graph that it acts on.
* `MediaGraph.Answer` — what a call answers with when it is not refused.
* `Session.perform` — the answer to a call and the session after it.
-/

set_option autoImplicit false

namespace MediaGraph

/-- Work on graphs. -/
structure Session where
  /-- The graph with each number; all are empty at first. -/
  graph : Nat → Graph
  /-- What was reported, the latest last, with the number of the graph that it is about. -/
  trace : List (Nat × Event)

/-- What can be asked for. -/
inductive Call where
  /-- The stream from outside under a label. -/
  | source (graph : Nat) (label : String)
  /-- A node with an arity. -/
  | node (graph : Nat) (inputs : List Stream) (filter : String) (arity : Arity)
      (arguments : Arguments)
  /-- A node for any number of inputs. -/
  | multiOutput (graph : Nat) (inputs : List Stream) (filter : String) (parts : List Arguments)
  /-- A node for any number of inputs, and its output. -/
  | filter (graph : Nat) (inputs : List Stream) (filter : String) (parts : List Arguments)
  /-- A concatenation, and its output. -/
  | concat (graph : Nat) (inputs : List Stream) (parts : List Arguments)
  /-- A filter on one stream, and its output. -/
  | apply (stream : Stream) (filter : String) (parts : List Arguments)
  /-- A node that reads a stream and others. -/
  | applyWith (stream : Stream) (others : List Stream) (filter : String) (arity : Arity)
      (arguments : Arguments)
  /-- Copies of a video stream. -/
  | split (stream : Stream)
  /-- Copies of an audio stream. -/
  | asplit (stream : Stream)
  /-- A concatenation of others and a stream, and its output. -/
  | concatAfter (stream : Stream) (others : List Stream) (parts : List Arguments)
  /-- An output of a node. -/
  | output (handle : Handle) (label : Option String) (pad : Option Nat)
  /-- The same stream, fit only to end a graph. -/
  | sink (stream : Stream)
  /-- A described graph, and its terminals. -/
  | build (graph : Nat) (description : Description)
  /-- The expression of terminals. -/
  | compile (graph : Nat) (terminals : List Stream) (settings : Settings)

/-- What a call answers with. -/
inductive Answer where
  /-- A stream. -/
  | stream (s : Stream)
  /-- A handle. -/
  | handle (h : Handle)
  /-- Several streams. -/
  | streams (ss : List Stream)
  /-- An expression. -/
  | expression (e : Expression)
  deriving DecidableEq

/-- The graph that a call acts on. -/
def Call.target : Call → Nat
  | .source g _ | .node g _ _ _ _ | .multiOutput g _ _ _ | .filter g _ _ _ | .concat g _ _ => g
  | .apply s _ _ | .applyWith s _ _ _ _ | .split s | .asplit s | .concatAfter s _ _ => s.graph
  | .output h _ _ => h.graph
  | .sink s => s.graph
  | .build g _ | .compile g _ _ => g

namespace Edit

/-- Work that only reads the graph and reports. -/
def ofReport {α : Type} (work : Graph → Report α) : Edit α := do
  let d ← get
  match (work d.graph).run d.events with
  | .ok a events =>
    set { d with events := events }
    return a
  | .error e events =>
    set { d with events := events }
    throw e

/-- The work that a call stands for. -/
def ofCall : Call → Edit Answer
  | .source _ label => Answer.stream <$> source label
  | .node _ inputs filter arity arguments =>
    Answer.handle <$> addNode inputs filter arity arguments
  | .multiOutput _ inputs filter parts => Answer.handle <$> addMultiOutput inputs filter parts
  | .filter _ inputs filter parts => Answer.stream <$> addFilter inputs filter parts
  | .concat _ inputs parts => Answer.stream <$> addConcat inputs parts
  | .apply s filter parts => Answer.stream <$> apply s filter parts
  | .applyWith s others filter arity arguments =>
    Answer.handle <$> applyWith s others filter arity arguments
  | .split s => Answer.handle <$> split s
  | .asplit s => Answer.handle <$> asplit s
  | .concatAfter s others parts => Answer.stream <$> concatAfter s others parts
  | .output h label pad => Answer.stream <$> request h.node label pad
  | .sink s => return .stream s.sink
  | .build _ description => Answer.streams <$> description.build
  | .compile _ terminals settings =>
    Answer.expression <$> ofReport fun g => g.compile terminals settings

end Edit

namespace Session

/-- The session before the first call. -/
def start : Session := ⟨Graph.empty, []⟩

/-- The session with another graph in the place of the graph with its number, and with what was
reported about it. -/
def update (s : Session) (target : Nat) (d : Draft) : Session :=
  ⟨fun i => if i = target then d.graph else s.graph i,
    s.trace ++ d.events.toList.map fun e => (target, e)⟩

/-- The answer to a call and the session after it. A call that is refused leaves behind what it
did until then. -/
def perform (s : Session) (c : Call) : Except Error Answer × Session :=
  match (Edit.ofCall c).run ⟨s.graph c.target, #[]⟩ with
  | .ok a d => (.ok a, s.update c.target d)
  | .error e d => (.error e, s.update c.target d)

end Session

end MediaGraph
