import Mathlib.Logic.Function.Basic
import MediaGraph.Proofs.Graph.Addition
import MediaGraph.Proofs.Session

/-!
# Calls that build

Nine calls add a node to a graph; some of them ask for its output at the same time. Each has its
own way of planning the addition, and one rule holds for all: if the graph accepts the plan, the
call is answered and the plan is all that happens to the session; else nothing happens to it.

## Main definitions

* `MediaGraph.Call.Plans` — the additions that a call stands for.
* `MediaGraph.Session.add` — a session after an addition to one of its graphs.

## Main results

* `MediaGraph.Edit.ofCall_adds` — the work of a call carries out its plan.
* `MediaGraph.Session.perform_of_accepts`, `MediaGraph.Session.perform_of_not_accepts` — what
  becomes of the session.
* `MediaGraph.Client.added_or_unchanged` — the same for a client, as one statement.
-/

set_option autoImplicit false

namespace MediaGraph

/-- Whether a call is one of those that add a node. -/
def Call.addsNode : Call → Bool
  | .node _ _ _ _ _ | .multiOutput _ _ _ _ | .filter _ _ _ _ | .concat _ _ _ => true
  | .apply _ _ _ | .applyWith _ _ _ _ _ | .split _ | .asplit _ | .concatAfter _ _ _ => true
  | .source _ _ | .output _ _ _ | .sink _ | .build _ _ | .compile _ _ _ => false

/-- Whether a call stands for an addition. -/
def Call.Plans : Call → Addition → Prop
  | .node _ inputs name arity arguments, x => x = ⟨inputs, name, arity, arguments, none⟩
  | .multiOutput _ inputs name parts, x =>
    ∃ arguments, arguments.Says parts ∧ x = ⟨inputs, name, .any, arguments, none⟩
  | .filter _ inputs name parts, x => x.OfFilter inputs name parts
  | .concat _ inputs parts, x => x.OfConcat inputs parts
  | .apply s name parts, x => x.OfFilter [s] name parts
  | .applyWith s others name arity arguments, x =>
    x = ⟨s :: others, name, arity, arguments, none⟩
  | .split s, x => x = ⟨[s], "split", .exact 1, .empty, none⟩
  | .asplit s, x => x = ⟨[s], "asplit", .exact 1, .empty, none⟩
  | .concatAfter s others parts, x => x.OfConcat (others ++ [s]) parts
  | .source _ _, _ | .output _ _ _, _ | .sink _, _ | .build _ _, _ | .compile _ _ _, _ => False

namespace Addition

variable {g : Graph} {x : Addition} {inputs : List Stream} {parts : List Arguments}

/-- What an addition is answered with: its output if it was asked for, else a handle. -/
def answer (g : Graph) (x : Addition) : Answer :=
  match x.output with
  | some _ => .stream g.nextOutput
  | none => .handle g.nextHandle

lemma OfFilter.answer_eq {filter : String} (h : x.OfFilter inputs filter parts) :
    .stream g.nextOutput = x.answer g := by
  obtain ⟨a, label, -, -, rfl⟩ := h
  rfl

lemma OfConcat.answer_eq (h : x.OfConcat inputs parts) :
    .stream g.nextOutput = x.answer g := by
  obtain ⟨a, v, w, n, -, -, rfl⟩ := h
  rfl

end Addition

/-- The work of a call that adds a node carries out what the call stands for. -/
theorem Edit.ofCall_adds {g : Graph} (hg : g.WellFormed) {call : Call} (hcall : call.addsNode) :
    Adds g (ofCall call) call.Plans (Addition.answer g) := by
  cases call with
  | node i inputs filter arity arguments =>
    refine (addNode_adds inputs filter arity arguments).map ?_
    rintro x rfl
    rfl
  | multiOutput i inputs filter parts =>
    refine ((addNode_adds inputs filter .any (.merge parts)).congr fun x _ => ?_).map ?_
    · simp [Call.Plans, Arguments.says_iff]
    · rintro x ⟨arguments, -, rfl⟩
      rfl
  | filter i inputs filter parts =>
    exact (addFilter_adds hg inputs filter parts).map fun x hx => hx.answer_eq
  | concat i inputs parts => exact (addConcat_adds hg inputs parts).map fun x hx => hx.answer_eq
  | apply s filter parts => exact (apply_adds hg s filter parts).map fun x hx => hx.answer_eq
  | applyWith s others filter arity arguments =>
    refine (applyWith_adds s others filter arity arguments).map ?_
    rintro x rfl
    rfl
  | split s =>
    refine (duplicate_adds "split" s).map ?_
    rintro x rfl
    rfl
  | asplit s =>
    refine (duplicate_adds "asplit" s).map ?_
    rintro x rfl
    rfl
  | concatAfter s others parts =>
    exact (concatAfter_adds hg s others parts).map fun x hx => hx.answer_eq
  | source | output | sink | build | compile => simp [Call.addsNode] at hcall

namespace Session

/-- The session after an addition to the graph with a number. -/
def add (s : Session) (i : Nat) (x : Addition) : Session :=
  ⟨Function.update s.graph i ((s.graph i).add x), s.trace ++ [(i, (s.graph i).addedEvent x)]⟩

/-- Without a change to the graph and without a report, nothing changes. -/
lemma update_unchanged (s : Session) (i : Nat) : s.update i ⟨s.graph i, #[]⟩ = s := by
  have hgraph : (fun j => if j = i then s.graph i else s.graph j) = s.graph := by
    funext j
    split
    · next h => rw [h]
    · rfl
  simp [update, hgraph]

lemma update_added (s : Session) (i : Nat) (x : Addition) :
    s.update i ⟨(s.graph i).add x, #[(s.graph i).addedEvent x]⟩ = s.add i x := by
  have hgraph : (fun j => if j = i then (s.graph i).add x else s.graph j) =
      Function.update s.graph i ((s.graph i).add x) := by
    funext j
    rw [Function.update_apply]
  simp [update, add, hgraph]

variable {s : Session} {call : Call}

/-- What a call stands for is carried out if the graph accepts it. -/
theorem perform_of_accepts (hg : (s.graph call.target).WellFormed) (hcall : call.addsNode)
    {x : Addition} (hx : call.Plans x) (haccept : (s.graph call.target).Accepts x) :
    s.perform call = (.ok (x.answer (s.graph call.target)), s.add call.target x) := by
  have hadds := Edit.ofCall_adds hg hcall
  rw [perform, hadds.accepted x hx haccept #[], ← update_added]
  rfl

/-- A call that stands for nothing that the graph accepts is refused, and nothing happens. -/
theorem perform_of_not_accepts (hg : (s.graph call.target).WellFormed) (hcall : call.addsNode)
    (hno : ¬ ∃ x, call.Plans x ∧ (s.graph call.target).Accepts x) :
    ∃ e, s.perform call = (.error e, s) := by
  have hadds := Edit.ofCall_adds hg hcall
  obtain ⟨e, he⟩ := hadds.refused (fun x hx haccept => hno ⟨x, hx, haccept⟩) #[]
  refine ⟨e, ?_⟩
  rw [perform, he]
  dsimp only
  rw [update_unchanged]

end Session

namespace Client

variable {c : Client} {call : Call}

/-- **A call that builds adds one node or changes nothing.** It is answered exactly if the graph
accepts an addition that it stands for: all inputs are filterable streams of the graph, there is
room, the name and the arity are in order, a label for the output is a label and free, and the
streams of a concatenation come out whole. Then the addition is all that happens: one node, with the
next number, its inputs in order and its arguments, and for some calls its pad 0. The arguments say
what the parts do, without the label of the output and with the number of segments. If the call is
refused, everything is as before.

**Proof sketch.** Each call is put together from checks and pieces that carry out a plan as a whole
(`Edit.ofCall_adds`). Only asking for the pad comes after a change, and it cannot fail: in a
well-formed graph no pad of the new node was asked for before, and the label was checked to be
free. -/
theorem added_or_unchanged (hc : c.Reachable) (hcall : call.addsNode) :
    ((∃ a, c.answer call = .ok a) ↔
      ∃ x, call.Plans x ∧ (c.session.graph call.target).Accepts x) ∧
    (∀ x, call.Plans x → (c.session.graph call.target).Accepts x →
      c.answer call = .ok (x.answer (c.session.graph call.target)) ∧
      (c.after call).session = c.session.add call.target x) ∧
    ∀ e, c.answer call = .error e → c.after call = c := by
  have hg := hc.sound.wellFormed call.target
  have hiff : (∃ a, c.answer call = .ok a) ↔
      ∃ x, call.Plans x ∧ (c.session.graph call.target).Accepts x := by
    constructor
    · rintro ⟨a, ha⟩
      by_contra hno
      obtain ⟨e, hperform⟩ := Session.perform_of_not_accepts hg hcall hno
      simp [answer, hperform] at ha
    · rintro ⟨x, hx, haccept⟩
      exact ⟨_, by rw [answer, Session.perform_of_accepts hg hcall hx haccept]⟩
  refine ⟨hiff, fun x hx haccept => ?_, fun e he => ?_⟩
  · have hperform := Session.perform_of_accepts hg hcall hx haccept
    have hanswer : c.answer call = .ok (x.answer (c.session.graph call.target)) := by
      rw [answer, hperform]
    exact ⟨hanswer, by rw [after, hanswer, hperform]⟩
  · have hno : ¬ ∃ x, call.Plans x ∧ (c.session.graph call.target).Accepts x := by
      intro hplan
      obtain ⟨a, ha⟩ := hiff.mpr hplan
      simp [he] at ha
    obtain ⟨e', hperform⟩ := Session.perform_of_not_accepts hg hcall hno
    rw [after, he, hperform]

/-- A call that turns a picture and asks for its output under a label. Its arguments come in three
parts, two of which set one option. -/
def flipCall (label : String) : Call :=
  .filter 0 [⟨0, .pad ⟨0, 0⟩, .filterable⟩] "transpose"
    [⟨[], (∅ : SortedMap String Value).insert "label" (.text label)
        |>.insert "passthrough" (.text "none")⟩,
      ⟨[.int 1], (∅ : SortedMap String Value).insert "passthrough" (.text "portrait")⟩,
      ⟨[.int 2], ∅⟩]

/-- The addition that the call stands for. -/
def flipAddition (label : Label) : Addition :=
  ⟨[⟨0, .pad ⟨0, 0⟩, .filterable⟩], "transpose", .any,
    ⟨[.int 1], (∅ : SortedMap String Value).insert "passthrough" (.text "portrait")⟩,
    some (some label)⟩

/-- A call that joins two copies as one segment, with another number of segments among the
arguments. -/
def joinCall : Call :=
  .concat 0 [⟨0, .pad ⟨0, 0⟩, .filterable⟩, ⟨0, .pad ⟨0, 1⟩, .filterable⟩]
    [⟨[], (∅ : SortedMap String Value).insert "n" (.int 7) |>.insert "v" (.int 2)⟩]

/-- The addition that the call stands for. -/
def joinAddition : Addition :=
  ⟨[⟨0, .pad ⟨0, 0⟩, .filterable⟩, ⟨0, .pad ⟨0, 1⟩, .filterable⟩], "concat", .any,
    ⟨[], (∅ : SortedMap String Value).insert "n" (.int 1) |>.insert "v" (.int 2)⟩, some none⟩

/-- Under a free label the picture is turned, two copies of it are joined, and under a label that
names something nothing happens. -/
theorem added_or_unchanged_sample :
    (start.run sampleCalls).Reachable ∧ (flipCall "out").addsNode ∧
    ((start.run sampleCalls).after (flipCall "out")).session =
      (start.run sampleCalls).session.add 0 (flipAddition ⟨"out", by decide⟩) ∧
    ((start.run sampleCalls).after joinCall).session =
      (start.run sampleCalls).session.add 0 joinAddition ∧
    (start.run sampleCalls).after (flipCall "l1") = start.run sampleCalls := by
  have hrun := reachable_sample
  have hadds : ∀ label, (flipCall label).addsNode := fun _ => rfl
  have hjoinAdds : joinCall.addsNode := rfl
  obtain ⟨-, hflipped, -⟩ := added_or_unchanged hrun (hadds "out")
  obtain ⟨-, hjoined, -⟩ := added_or_unchanged hrun hjoinAdds
  obtain ⟨-, -, hunchanged⟩ := added_or_unchanged hrun (hadds "l1")
  have hflipTarget : (flipCall "out").target = 0 := rfl
  have hjoinTarget : joinCall.target = 0 := rfl
  rw [hflipTarget] at hflipped
  rw [hjoinTarget] at hjoined
  have hflip : ((start.run sampleCalls).session.graph 0).Accepts
      (flipAddition ⟨"out", by decide⟩) := by
    constructor
    · decide +kernel
    · decide +kernel
    · exact Node.nameProblem?_eq_none_iff.mp (by decide +kernel)
    · exact fun _ h => nomatch h
    · rintro l ⟨⟩
      decide +kernel
  have hjoin : ((start.run sampleCalls).session.graph 0).Accepts joinAddition := by
    constructor
    · decide +kernel
    · decide +kernel
    · exact Node.nameProblem?_eq_none_iff.mp (by decide +kernel)
    · exact fun _ h => nomatch h
    · exact fun _ h => nomatch h
  refine ⟨hrun, hadds "out", (hflipped (flipAddition ⟨"out", by decide⟩) ?_ hflip).2,
    (hjoined joinAddition ?_ hjoin).2, ?_⟩
  · refine ⟨_, some ⟨"out", by decide⟩, ⟨rfl, ?_, fun key hkey => ?_⟩, ?_, rfl⟩
    · simp [Arguments.get?, SortedMap.find?_insert]
    · by_cases hpass : key = "passthrough" <;>
        simp [Arguments.get?, SortedMap.find?_insert, hkey, hpass]
    · simp [Arguments.get?, SortedMap.find?_insert, Label.AskedBy, Label.Asked, Value.render]
  · refine ⟨_, 2, 0, 1, ⟨?_, by decide⟩, ⟨rfl, ?_, fun key hkey => ?_⟩, rfl⟩
    · constructor <;> decide +kernel
    · simp [Arguments.get?, SortedMap.find?_insert]
    · simp [Arguments.get?, SortedMap.find?_insert, hkey]
  · exact hunchanged (.duplicateLabel "l1") (by decide +kernel)

end Client

end MediaGraph
