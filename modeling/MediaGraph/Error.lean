import MediaGraph.Json.Problem
import MediaGraph.Text.Quoted

/-!
# Errors

Everything that building, describing or compiling a graph can refuse, by cause. The words for a
cause are written in one place, `Error.message`.

## Main definitions

* `MediaGraph.Invalid` — data of a caller that breaks a rule.
* `MediaGraph.Fault` — a broken promise inside a graph, or a limit of the program.
* `MediaGraph.DocumentKind` — what a document describes.
* `MediaGraph.Error` — all causes; `Error.message` is the text of each.
-/

set_option autoImplicit false

namespace MediaGraph

/-- The text that names a node in messages: its number in the order of construction. -/
def nodeName (id : Nat) : String := "#" ++ toString id

/-- The number of output pads that a node may have. -/
def padLimit : Nat := 1024

/-- Data that breaks a rule. -/
inductive Invalid where
  /-- A filter name without a character that is not blank. -/
  | emptyFilterName
  /-- A filter name with a character that the expression needs for itself. -/
  | reservedCharacter (filter : String) (c : Char)
  /-- A pad at or above the limit. -/
  | padBeyondLimit (pad node : Nat)
  /-- Segments with a negative number of streams. -/
  | negativeSegment (video audio : Int)
  /-- Segments with more streams than can be counted. -/
  | segmentOverflow (video audio : Int)
  /-- More streams than can be counted. -/
  | tooManyStreams
  /-- Streams that do not form whole segments. -/
  | brokenSegment (count : Nat) (video audio : Int)
  /-- No text in front of the numbers of assigned labels. -/
  | emptyStem
  /-- A text in front of the numbers of assigned labels that is no plain word. -/
  | badStem (stem : String)
  /-- A text in front of the numbers of assigned labels that makes no label with the first number. -/
  | refusedStem (stem text : String) (defect : Label.Defect)
  /-- A name of a node that is empty or holds a colon. -/
  | badNodeId (id : String)
  /-- A name of a node that is also the label of a source. -/
  | shadowingNodeId (id : String)
  /-- A name that two nodes have. -/
  | duplicateNodeId (id : String)
  /-- A reference whose part behind the last colon is no pad. -/
  | badPad (reference : String)
  /-- A reference to what is not there. -/
  | unknownReference (reference : String)
  /-- A rule of the caller, in the caller's words. -/
  | stated (text : String)
  deriving DecidableEq, Repr

/-- The words for data that breaks a rule. -/
def Invalid.message : Invalid → String
  | .emptyFilterName => "filter name must be non-empty"
  | .reservedCharacter filter c =>
    "filter name '" ++ filter ++ "' contains reserved character " ++ Text.quoteChar c
  | .padBeyondLimit pad node =>
    "output pad " ++ toString pad ++ " of node " ++ nodeName node ++ " exceeds the limit of " ++
      toString padLimit ++ " pads"
  | .negativeSegment video audio =>
    s!"concat: stream counts must be non-negative, got v={video} a={audio}"
  | .segmentOverflow video audio => s!"concat: v={video} + a={audio} overflows"
  | .tooManyStreams => "concat: too many streams"
  | .brokenSegment count video audio =>
    s!"concat: {count} stream(s) do not form whole segments of v={video} + a={audio}"
  | .emptyStem => "label_prefix must be non-empty"
  | .badStem stem =>
    "label_prefix '" ++ stem ++
      "' must start with a letter or '_' and contain only ASCII alphanumerics and '_'"
  | .refusedStem stem text defect =>
    "label_prefix '" ++ stem ++ "': " ++ Label.refusal text defect.reason
  | .badNodeId id => "node id '" ++ id ++ "' must be non-empty and must not contain ':'"
  | .shadowingNodeId id => "node id '" ++ id ++ "' shadows a source label"
  | .duplicateNodeId id => "duplicate node id '" ++ id ++ "'"
  | .badPad reference => "invalid pad index in stream reference '" ++ reference ++ "'"
  | .unknownReference reference => "unknown stream reference '" ++ reference ++ "'"
  | .stated text => text

/-- A broken promise inside a graph, or a limit of the program. -/
inductive Fault where
  /-- There is no number left for another node. -/
  | tooManyNodes
  /-- A stream comes from a node that the graph does not have. -/
  | unknownNode (node : Nat)
  /-- A node reads from a node that is not among those to be ordered. -/
  | outsideNode (node feeder : Nat)
  /-- Nodes wait for each other. -/
  | cycle
  /-- A stream comes from a pad that nobody asked for. -/
  | unrequestedPad (pad node : Nat)
  /-- A node is needed although nobody asked for any of its pads. -/
  | unrequestedNode (node : Nat)
  /-- There is no number left for another label. -/
  | labelOverflow
  /-- A broken promise of the caller's, in the caller's words. -/
  | stated (text : String)
  deriving DecidableEq, Repr

/-- The words for a fault. -/
def Fault.message : Fault → String
  | .tooManyNodes => "node arena exhausted"
  | .unknownNode node => "stream references unknown node " ++ nodeName node
  | .outsideNode node feeder =>
    "node " ++ nodeName node ++ " reads from node " ++ nodeName feeder ++
      " outside the discovered graph"
  | .cycle => "filter graph contains a cycle"
  | .unrequestedPad pad node =>
    "output pad " ++ toString pad ++ " of node " ++ nodeName node ++ " was never requested"
  | .unrequestedNode node =>
    "node " ++ nodeName node ++ " is reachable but none of its outputs was requested"
  | .labelOverflow => "label counter overflow"
  | .stated text => text

/-- What a document describes. -/
inductive DocumentKind where
  /-- A graph. -/
  | graphDescription
  /-- The settings of a compilation. -/
  | compileOptions
  deriving DecidableEq, Repr

/-- The words for a kind of document. -/
def DocumentKind.name : DocumentKind → String
  | .graphDescription => "graph description"
  | .compileOptions => "compile options"

/-- Why something was refused. -/
inductive Error where
  /-- A node got another number of inputs than it declared. -/
  | arityMismatch (filter : String) (node expected actual : Nat)
  /-- A stream lacks the capability that an action needs. -/
  | incompatibleStream (action required actual : String)
  /-- An option holds a value of another type. -/
  | typeMismatch (key expected found : String)
  /-- There is nothing to compile. -/
  | emptyGraph
  /-- A fault inside a graph. -/
  | internal (fault : Fault)
  /-- A text cannot be a label. -/
  | invalidLabel (text reason : String)
  /-- A label already names another stream. -/
  | duplicateLabel (label : String)
  /-- A pad was handed out under another label, or without one (the empty text). -/
  | labelConflict (label existing : String)
  /-- A stream belongs to another graph. -/
  | foreignStream
  /-- Data breaks a rule. -/
  | invalid (cause : Invalid)
  /-- A document has a problem. -/
  | document (kind : DocumentKind) (problem : Json.Problem)
  /-- A value could not be written or read, in the words of whoever tried. -/
  | serialization (text : String)
  /-- A document could not be opened, for a reason given by the system. -/
  | unopened (kind : DocumentKind) (path reason : String)
  /-- A failure of the surroundings, in their words. -/
  | other (text : String)
  deriving DecidableEq, Repr

namespace Error

/-- The error of a text that cannot be a label. -/
def ofDefect (text : String) (defect : Label.Defect) : Error :=
  .invalidLabel text defect.reason

/-- The words for an error. -/
def message : Error → String
  | .arityMismatch filter node expected actual =>
    s!"arity mismatch: filter '{filter}' (node {node}) expects {expected} input(s), got {actual}"
  | .incompatibleStream action required actual =>
    s!"incompatible stream: cannot {action} on {actual} stream (requires {required})"
  | .typeMismatch key expected found =>
    s!"type mismatch: option '{key}' expected {expected}, found '{found}'"
  | .emptyGraph => "empty graph: no terminal streams to compile"
  | .internal fault => "internal consistency error: " ++ fault.message
  | .invalidLabel text reason => Label.refusal text reason
  | .duplicateLabel label => "duplicate label '" ++ label ++ "'"
  | .labelConflict label existing =>
    "label conflict: requested '" ++ label ++ "' for a pad already handed out as '" ++ existing ++
      "'"
  | .foreignStream => "stream belongs to a different graph"
  | .invalid cause => "validation error: " ++ cause.message
  | .document kind problem =>
    "serialization error: parse " ++ kind.name ++ " JSON" ++
      (match problem.detail? with
        | none => ""
        | some detail => ": " ++ detail)
  | .serialization text => "serialization error: " ++ text
  | .unopened kind path _ => "open " ++ kind.name ++ " '" ++ path ++ "'"
  | .other text => text

/-- The words for what lies behind an error, where it is a separate failure. -/
def cause? : Error → Option String
  | .unopened _ _ reason => some reason
  | _ => none

end Error

end MediaGraph
