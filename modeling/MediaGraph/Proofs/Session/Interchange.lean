import Mathlib.Data.List.Pairwise
import MediaGraph.Proofs.Graph.Interchange
import MediaGraph.Proofs.Session.Requests

/-!
# Calls that can be made in any order

Outputs and streams from outside are asked for one after the other, but the order is of no
consequence as long as no pad is asked for twice and no label is given twice. Every call is answered
as if it were the first one, also if it is refused, and the session becomes the same.

## Main definitions

* `MediaGraph.Call.Apart` — two calls act on different graphs, or their requests are independent.
* `MediaGraph.Session.served` — a session after a request to one of its graphs.
* `MediaGraph.Client.answers` — what calls in a row are answered.

## Main results

* `MediaGraph.Session.served_comm` — requests of such calls can be interchanged.
* `MediaGraph.Client.answers_of_perm` — what calls are answered in any order, and what becomes of
  the session.
-/

set_option autoImplicit false

namespace MediaGraph

/-- Whether two calls act on different graphs or make independent requests. -/
def Call.Apart (a b : Call) : Prop :=
  ∀ q ∈ a.request?, ∀ r ∈ b.request?, a.target = b.target → q.Independent r

instance (a b : Call) : Decidable (a.Apart b) :=
  inferInstanceAs (Decidable (∀ q ∈ a.request?, ∀ r ∈ b.request?, _))

lemma Call.Apart.symm {a b : Call} (h : a.Apart b) : b.Apart a :=
  fun q hq r hr htarget => (h r hr q hq htarget.symm).symm

instance : Std.Symm Call.Apart := ⟨fun _ _ => Call.Apart.symm⟩

/-! ## Requests to a session -/

namespace Session

/-- The session after a request to the graph with a number. -/
def served (s : Session) (i : Nat) (q : Request) : Session :=
  ⟨Function.update s.graph i ((s.graph i).served q), s.trace⟩

/-- A call that makes a request is answered by the graph, and nothing is reported. -/
lemma perform_eq_served (s : Session) {call : Call} {q : Request} (h : call.request? = some q) :
    s.perform call =
      (((s.graph call.target).answerTo q).map Answer.stream, s.served call.target q) := by
  have hupdate : ∀ g' : Graph, s.update call.target ⟨g', #[]⟩ =
      ⟨Function.update s.graph call.target g', s.trace⟩ := by
    intro g'
    simp only [update, List.map_nil, List.append_nil, mk.injEq, and_true]
    funext j
    rw [Function.update_apply]
  rw [s.perform_of_request h, served, Graph.answerTo, Graph.served]
  cases (s.graph call.target).serve q with
  | ok x =>
    dsimp only
    rw [hupdate]
    rfl
  | error e =>
    dsimp only
    rw [Function.update_eq_self]
    rfl

/-- Requests can be interchanged if they are independent or to different graphs. -/
lemma served_comm (s : Session) {i j : Nat} {q r : Request} (h : i = j → q.Independent r) :
    (s.served i q).served j r = (s.served j r).served i q := by
  unfold served
  by_cases hij : i = j
  · subst hij
    simp [Graph.served_comm _ (h rfl)]
  · have hji : j ≠ i := Ne.symm hij
    simp [hij, hji, Function.update_comm]

/-- The answer to a request does not depend on one before that is independent or was made to another
graph. -/
lemma answerTo_served (s : Session) {i j : Nat} {q r : Request} (h : i = j → q.Independent r) :
    ((s.served j r).graph i).answerTo q = (s.graph i).answerTo q := by
  by_cases hij : i = j
  · subst hij
    simpa [served] using Graph.answerTo_served (h rfl)
  · simp [served, hij]

end Session

/-! ## Calls in a row -/

namespace Client

variable {c c' : Client} {a b call : Call} {q : Request} {calls calls' : List Call}

/-- What calls made one after the other are answered. -/
def answers (c : Client) : List Call → List (Except Error Answer)
  | [] => []
  | call :: rest => c.answer call :: (c.after call).answers rest

lemma session_run (c : Client) (calls : List Call) :
    (c.run calls).session = calls.foldl (fun s call => (s.perform call).2) c.session := by
  induction calls generalizing c with
  | nil => rfl
  | cons call rest ih => rw [List.foldl_cons, ← session_after, ← ih, run, List.foldl_cons, run]

/-- A call that makes a request is answered the same after another that is apart from it. -/
lemma answer_after_of_apart (ha : a.request?.isSome) (hb : b.request?.isSome) (h : a.Apart b) :
    (c.after b).answer a = c.answer a := by
  obtain ⟨q, hq⟩ := Option.isSome_iff_exists.mp ha
  obtain ⟨r, hr⟩ := Option.isSome_iff_exists.mp hb
  rw [answer, answer, session_after, Session.perform_eq_served _ hq,
    Session.perform_eq_served _ hr, Session.perform_eq_served _ hq]
  dsimp only
  rw [Session.answerTo_served _ (h q hq r hr)]

/-- Calls that are apart from each other are answered as if each was the first one.

**Proof sketch.** Induction on the calls: the others are answered as if they came right after the
first, and they are apart from it. -/
lemma answers_eq_map (hrequest : ∀ call ∈ calls, call.request?.isSome)
    (hapart : calls.Pairwise Call.Apart) : c.answers calls = calls.map c.answer := by
  induction calls generalizing c with
  | nil => rfl
  | cons call rest ih =>
    obtain ⟨hcall, hrest⟩ := List.forall_mem_cons.mp hrequest
    obtain ⟨hfirst, hothers⟩ := List.pairwise_cons.mp hapart
    rw [answers, ih hrest hothers, List.map_cons]
    refine congrArg (c.answer call :: ·) (List.map_congr_left fun b hb => ?_)
    exact answer_after_of_apart (hrest b hb) hcall (hfirst b hb).symm

/-- Calls that are apart from each other leave the same session behind in any order. -/
lemma session_run_eq (hrequest : ∀ call ∈ calls, call.request?.isSome)
    (hapart : calls.Pairwise Call.Apart) (hperm : calls'.Perm calls) :
    (c.run calls').session = (c.run calls).session := by
  rw [session_run, session_run]
  refine (hperm.symm.foldl_eq' (fun a ha b hb s => ?_) c.session).symm
  obtain ⟨q, hq⟩ := Option.isSome_iff_exists.mp (hrequest a ha)
  obtain ⟨r, hr⟩ := Option.isSome_iff_exists.mp (hrequest b hb)
  by_cases hab : a = b
  · rw [hab]
  · have h := hapart.forall ha hb hab
    simp only [Session.perform_eq_served _ hq, Session.perform_eq_served _ hr]
    exact s.served_comm (h q hq r hr)

/-- **Calls that ask for streams can be made in any order**, if no pad is asked for by two of them
and no text of a label occurs in two of them. In every order each is answered as if it was the first
one, with the same stream or the same error, and the session is the same after all of them. So is
whatever is answered later, a compilation for instance. This holds for any client, whatever streams
it has.

**Proof sketch.** Calls that are apart from each other are answered as if each was the first one
(`Client.answers_eq_map`), and any two of them can be interchanged (`Session.served_comm`). Later
calls see the session only. -/
theorem answers_of_perm (hrequest : ∀ call ∈ calls, call.request?.isSome)
    (hapart : calls.Pairwise Call.Apart) (hperm : calls'.Perm calls) :
    c.answers calls' = calls'.map c.answer ∧
    (c.run calls').session = (c.run calls).session ∧
    ∀ (later : List Call) (i : Nat) (terminals : List Stream) (settings : Settings),
      ((c.run calls').run later).answer (.compile i terminals settings) =
        ((c.run calls).run later).answer (.compile i terminals settings) := by
  have hsession := session_run_eq (c := c) hrequest hapart hperm
  refine ⟨?_, hsession, fun later i terminals settings => ?_⟩
  · refine answers_eq_map (fun call hcall => hrequest call (hperm.mem_iff.mp hcall)) ?_
    exact (hperm.pairwise_iff Call.Apart.symm).mpr hapart
  · rw [answer, answer, session_run _ later, session_run _ later, hsession]

/-- Requests for the sample run. A label that names a pad is asked for as a stream from outside, a
pad without a label under one, and a text is no label; these are refused. -/
def requestCalls : List Call :=
  [.source 0 "1:a", .source 0 "l1", .output ⟨0, 0⟩ (some "late") none,
    .output ⟨0, 0⟩ none (some 5), .output ⟨0, 1⟩ (some "side") (some 1),
    .output ⟨0, 2⟩ (some "no label") (some 1)]

/-- The requests in the opposite order are granted and refused as before. -/
theorem answers_of_reverse :
    (∀ call ∈ requestCalls, call.request?.isSome) ∧ requestCalls.Pairwise Call.Apart ∧
    (requestCalls.map (start.run sampleCalls).answer).map Except.isOk =
      [true, false, false, true, true, false] ∧
    (start.run sampleCalls).answers requestCalls.reverse =
      (requestCalls.map (start.run sampleCalls).answer).reverse ∧
    ((start.run sampleCalls).run requestCalls.reverse).session =
      ((start.run sampleCalls).run requestCalls).session := by
  have hrequest : ∀ call ∈ requestCalls, call.request?.isSome := by decide
  have hapart : requestCalls.Pairwise Call.Apart := by decide +kernel
  obtain ⟨hanswers, hsession, -⟩ :=
    answers_of_perm (c := start.run sampleCalls) hrequest hapart requestCalls.reverse_perm
  exact ⟨hrequest, hapart, by decide +kernel, by rw [hanswers, List.map_reverse], hsession⟩

end Client

end MediaGraph
