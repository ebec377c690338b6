import MediaGraph.Error
import MediaGraph.SortedMap

/-!
# Schedules

Nodes are written after the nodes they read from. Of several that could come next the one with
the smallest number does, so that independent nodes keep the order of their construction.

A plan gives for each node the nodes it reads from, once for each input. The schedule counts for
every node the inputs whose nodes are not placed yet; a node is ready when none are left.

## Main definitions

* `MediaGraph.Plan` — the nodes with what they read from.
* `MediaGraph.Schedule` — the state of the work: what is placed, what is ready, and the counts.
* `Schedule.step` — places the smallest ready node.
* `Plan.order` — all nodes in order, or the fault that forbids any.
-/

set_option autoImplicit false

namespace MediaGraph

/-- Nodes, each with the nodes it reads from, once for each input. -/
abbrev Plan := SortedMap Nat (List Nat)

/-- A node on its way into a schedule. -/
structure Schedule.Task where
  /-- The node. -/
  id : Nat
  /-- The nodes it reads from, once for each input. -/
  feeders : List Nat
  /-- The number of inputs whose nodes are not placed yet. -/
  missing : Nat
  deriving DecidableEq, Repr

/-- A schedule in the making. -/
structure Schedule where
  /-- The nodes placed so far, the latest first. -/
  placed : List Nat
  /-- The nodes that can be placed now, ascending. -/
  ready : List Nat
  /-- All nodes, ascending. -/
  tasks : List Schedule.Task
  deriving DecidableEq, Repr

namespace Schedule

/-- The task after `id` was placed: every input that reads from it is served. -/
def Task.serve (id : Nat) (t : Task) : Task :=
  { t with missing := t.missing - t.feeders.count id }

/-- Whether placing `id` served the last missing input of a task. -/
def Task.becomesReady (id : Nat) (t : Task) : Bool :=
  t.feeders.contains id && (t.serve id).missing == 0

/-- A number put into an ascending list at its place. -/
def insertAscending (n : Nat) : List Nat → List Nat
  | [] => [n]
  | m :: rest => if n ≤ m then n :: m :: rest else m :: insertAscending n rest

/-- The schedule before anything is placed: nodes without inputs are ready. -/
def start (plan : Plan) : Schedule :=
  let tasks := plan.toList.map fun e => ⟨e.1, e.2, e.2.length⟩
  ⟨[], (tasks.filter fun t => t.missing == 0).map Task.id, tasks⟩

/-- The schedule after the smallest ready node is placed, if there is one. -/
def step (s : Schedule) : Option Schedule :=
  match s.ready with
  | [] => none
  | id :: rest =>
    let freed := (s.tasks.filter (Task.becomesReady id)).map Task.id
    some ⟨id :: s.placed, freed.foldr insertAscending rest, s.tasks.map (Task.serve id)⟩

/-- The schedule after at most so many steps. -/
def run : Nat → Schedule → Schedule
  | 0, s => s
  | steps + 1, s =>
    match s.step with
    | none => s
    | some s => run steps s

end Schedule

namespace Plan

/-- The first input, by ascending node, that reads from a node outside the plan. -/
def outside? (plan : Plan) : Option (Nat × Nat) :=
  plan.toList.findSome? fun e => (e.2.find? fun up => !plan.contains up).map fun up => (e.1, up)

/-- The nodes of the plan in order: each after all that it reads from, and at each step the
smallest of those that can come next. -/
def order (plan : Plan) : Except Fault (List Nat) :=
  match plan.outside? with
  | some (id, up) => .error (.outsideNode id up)
  | none =>
    let placed := ((Schedule.start plan).run plan.size).placed
    if placed.length = plan.size then .ok placed.reverse else .error .cycle

end Plan

end MediaGraph
