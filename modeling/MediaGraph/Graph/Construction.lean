import MediaGraph.Graph

/-!
# Building a graph

The calls that add nodes to a graph. A call runs on a draft, which is the graph as it is and the
events of the work so far; what a call did before it was refused stays done.

## Main definitions

* `MediaGraph.Draft`, `MediaGraph.Edit` — a graph under construction, and work on it.
* `Edit.addNode` — adds one node.
* `Edit.addFilter`, `Edit.addConcat` — add a node and ask for its output.
* `Edit.apply`, `Edit.applyWith`, `Edit.duplicate`, `Edit.concatAfter` — the same, seen from a
  stream that the node reads.
-/

set_option autoImplicit false

namespace MediaGraph

/-- A graph under construction. -/
structure Draft where
  /-- The graph as it is. -/
  graph : Graph
  /-- What was reported so far, the latest last. -/
  events : Array Event

/-- Work on a draft, which can be refused on the way; the draft stays as it is then. -/
abbrev Edit := EStateM Error Draft

namespace Edit

/-- The graph as it is. -/
def graph : Edit Graph := do return (← get).graph

/-- Reports an event. -/
def report (e : Event) : Edit Unit :=
  modify fun d => { d with events := d.events.push e }

/-- A check that may refuse to go on. -/
def check {α : Type} (x : Except Error α) : Edit α :=
  match x with
  | .ok a => pure a
  | .error e => throw e

/-- A step that answers with the grown graph or leaves the graph as it is. -/
def step {α : Type} (f : Graph → Except Error (α × Graph)) : Edit α := do
  let (a, g) ← check (f (← graph))
  modify fun d => { d with graph := g }
  return a

/-- The stream from outside under a label. -/
def source (text : String) : Edit Stream := step fun g => g.source text

/-- The stream from an output pad of a node. -/
def request (node : Nat) (label : Option String) (pad : Option Nat) : Edit Stream :=
  step fun g => g.request node label pad

end Edit

namespace Graph

/-- Refuses a stream that the graph cannot feed to a filter. -/
def checkInput (g : Graph) (action : String) (s : Stream) : Except Error Unit :=
  if s.graph = g.id then s.require .filterable action else .error .foreignStream

/-- Checks the inputs of a node one after the other. -/
def checkInputs (g : Graph) (action : String) : List Stream → Except Error Unit
  | [] => .ok ()
  | s :: rest => do
    g.checkInput action s
    g.checkInputs action rest

/-- The number of nodes that a graph can hold. -/
def nodeLimit : Nat := Width.max32 + 1

/-- The node that would come next, if the inputs, the name and the arity are in order and there is
room for it. -/
def nextNode (g : Graph) (inputs : List Stream) (filter : String) (arity : Arity)
    (arguments : Arguments) : Except Error Node := do
  g.checkInputs ("feed '" ++ filter ++ "'") inputs
  if nodeLimit ≤ g.nodes.size then
    throw (.internal .tooManyNodes)
  Node.make g.nodes.size filter (inputs.map Stream.endpoint) arity arguments

end Graph

namespace Arguments

/-- The arguments of a concatenation of `count` streams: the options `v` and `a` say how many
video and audio streams a segment has (one and none by default), and `n` is set to the number of
segments, which must come out whole. -/
def forSegments (arguments : Arguments) (count : Nat) : Except Error Arguments := do
  let video ← arguments.getOr .integer "v" 1
  let audio ← arguments.getOr .integer "a" 0
  let v := video.toInt
  let a := audio.toInt
  if v < 0 ∨ a < 0 then
    throw (.invalid (.negativeSegment v a))
  if Width.maxSigned64 < v + a then
    throw (.invalid (.segmentOverflow v a))
  if Width.maxSigned64 < count then
    throw (.invalid .tooManyStreams)
  let size := (v + a).toNat
  if size = 0 ∨ count = 0 ∨ count % size ≠ 0 then
    throw (.invalid (.brokenSegment count v a))
  return arguments.set "n" (.int (Int64.ofNat (count / size)))

/-- The key of the option that names the output of a filter. -/
def labelKey : String := "label"

end Arguments

namespace Edit

/-- Adds a node that reads `inputs` in order. Every input must be a filterable stream of this
graph. -/
def addNode (inputs : List Stream) (filter : String) (arity : Arity) (arguments : Arguments) :
    Edit Handle := do
  let g ← graph
  let node ← check (g.nextNode inputs filter arity arguments)
  report (.built node.id filter arity inputs.length)
  modify fun d => { d with graph := { d.graph with nodes := d.graph.nodes.push node } }
  return ⟨g.id, node.id⟩

/-- Adds a node for any number of inputs. -/
def addMultiOutput (inputs : List Stream) (filter : String) (parts : List Arguments) :
    Edit Handle :=
  addNode inputs filter .any (Arguments.merge parts)

/-- Reads the label of an output from the text of an option: an empty text is none, and a label
must not name anything yet. -/
def freeLabel (text : String) : Edit (Option Label) := do
  if text = "" then
    return none
  let label ← check (Graph.readLabel text)
  check ((← graph).checkFree label)
  return some label

/-- Adds a node for any number of inputs and asks for its pad 0. The option `label`, unless it is
empty, names the output and is no argument of the filter. -/
def addFilter (inputs : List Stream) (filter : String) (parts : List Arguments) :
    Edit Stream := do
  let (text, arguments) := (Arguments.merge parts).take Arguments.labelKey
  let label ← freeLabel text
  let handle ← addNode inputs filter .any arguments
  request handle.node (label.map Label.text) none

/-- Adds a node that plays its inputs segment by segment and asks for its pad 0. -/
def addConcat (inputs : List Stream) (parts : List Arguments) : Edit Stream := do
  let arguments ← check ((Arguments.merge parts).forSegments inputs.length)
  let handle ← addNode inputs "concat" .any arguments
  request handle.node none none

/-- Applies a filter to one stream. -/
def apply (s : Stream) (filter : String) (parts : List Arguments) : Edit Stream := do
  check (s.require .filterable ("apply '" ++ filter ++ "'"))
  addFilter [s] filter parts

/-- Adds a node that reads a stream and then others. -/
def applyWith (s : Stream) (others : List Stream) (filter : String) (arity : Arity)
    (arguments : Arguments) : Edit Handle := do
  check (s.require .filterable ("apply '" ++ filter ++ "'"))
  addNode (s :: others) filter arity arguments

/-- Adds a node that copies a stream to as many pads as are asked for, by the filter of the given
name. -/
def duplicate (filter : String) (s : Stream) : Edit Handle := do
  check (s.require .filterable filter)
  addNode [s] filter (.exact 1) .empty

/-- Copies a video stream. -/
def split (s : Stream) : Edit Handle := duplicate "split" s

/-- Copies an audio stream. -/
def asplit (s : Stream) : Edit Handle := duplicate "asplit" s

/-- Plays the streams of `others` and then `s`, segment by segment. -/
def concatAfter (s : Stream) (others : List Stream) (parts : List Arguments) : Edit Stream := do
  check (s.require .filterable "concat")
  addConcat (others ++ [s]) parts

end Edit

end MediaGraph
