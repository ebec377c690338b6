import MediaGraph.Proofs.Graph.Requests
import MediaGraph.Proofs.Session.Building
import MediaGraph.Proofs.Session.Growth

/-!
# Calls that ask for streams

Two calls ask a graph for a stream: one from outside, under a label, and one from an output pad of a
node, under a label or not. There are four ways in which a graph can grant such a request: what is
asked for is known already, or it is new and its label is free. In all other cases nothing happens.

## Main definitions

* `MediaGraph.Graph.Serves` — the ways to grant a request, with the endpoint of the stream and the
  graph afterwards.
* `MediaGraph.Call.request?` — the request that a call makes.

## Main results

* `MediaGraph.Graph.serve_eq_ok_iff_serves` — a well-formed graph grants what can be granted.
* `MediaGraph.Client.served_or_unchanged` — the same for a client, and that requests can be
  repeated.
-/

set_option autoImplicit false

namespace MediaGraph

/-! ## Granting a request -/

/-- Whether a graph can grant a request with a stream from an endpoint, and become another graph. -/
inductive Graph.Serves (g : Graph) : Request → Endpoint → Graph → Prop where
  /-- The label names the endpoint outside already. -/
  | knownSource {l : Label} (known : g.owners.find? l = some (.external l)) :
    Serves g (.source l.text) (.external l) g
  /-- The label names nothing, and comes to name the endpoint outside. -/
  | newSource {l : Label} (free : g.owners.find? l = none) :
    Serves g (.source l.text) (.external l)
      { g with owners := g.owners.insert l (.external l) }
  /-- The pad was asked for before, and no label is given now or the label that it has. -/
  | knownPad {p : Pad} {label existing : Option Label} (limit : p.index < 1024)
      (asked : g.pads.find? p = some existing) (same : ∀ l, label = some l → existing = some l) :
    Serves g (.pad p (label.map Label.text)) (.pad p) g
  /-- The pad is asked for the first time, and no label is given or one that names nothing. -/
  | newPad {p : Pad} {label : Option Label} (limit : p.index < 1024)
      (first : g.pads.find? p = none) (free : ∀ l, label = some l → g.owners.find? l = none) :
    Serves g (.pad p (label.map Label.text)) (.pad p) (g.withPad p label)

namespace Graph

variable {g g' g'' : Graph} {q : Request} {e : Endpoint}

lemma WellFormed.paired (hg : g.WellFormed) : g.Paired := fun _ _ => hg.owner_pad

/-- A pad that was asked for before can be asked for without a label or under its own. -/
lemma requestPad_of_asked {p : Pad} {label existing : Option Label}
    (asked : g.pads.find? p = some existing) (same : ∀ l, label = some l → existing = some l) :
    g.requestPad p label = .ok g := by
  unfold requestPad
  rw [asked]
  cases label with
  | none => rfl
  | some l => simp [same l rfl]

lemma serve_source_of_bind {l : Label} (h : g.bind l (.external l) = .ok g') :
    g.serve (.source l.text) = .ok (⟨g'.id, .external l, .filterable⟩, g') :=
  except_bind_eq_ok_iff.mpr ⟨l, readLabel_eq_ok_iff.mpr rfl, except_bind_eq_ok_iff.mpr ⟨g', h, rfl⟩⟩

/-- **A well-formed graph grants a request in one of the four ways or not at all.** -/
theorem serve_eq_ok_iff_serves (hg : g.WellFormed) {s : Stream} :
    g.serve q = .ok (s, g') ↔ ∃ e, g.Serves q e g' ∧ s = ⟨g.id, e, .filterable⟩ := by
  constructor
  · intro h
    cases q with
    | source text =>
      obtain ⟨l, hl, hbind, rfl⟩ := source_eq_ok h
      obtain rfl := readLabel_eq_ok_iff.mp hl
      rcases bind_eq_ok hbind with ⟨known, rfl⟩ | ⟨free, rfl⟩
      · exact ⟨_, .knownSource known, rfl⟩
      · exact ⟨_, .newSource free, rfl⟩
    | pad p text =>
      obtain ⟨limit, label, rfl, hpad, rfl⟩ := serve_pad_eq_ok_iff.mp h
      rcases requestPad_eq_ok_of_paired hg.paired hpad with ⟨existing, asked, same, rfl⟩ |
        ⟨first, free, rfl⟩
      · exact ⟨_, .knownPad limit asked same, rfl⟩
      · exact ⟨_, .newPad limit first free, rfl⟩
  · rintro ⟨e, h, rfl⟩
    cases h with
    | knownSource known => exact serve_source_of_bind (by simp [bind, known])
    | newSource free => exact serve_source_of_bind (by rw [bind, free])
    | knownPad limit asked same =>
      exact serve_pad_eq_ok_iff.mpr ⟨limit, _, rfl, requestPad_of_asked asked same, rfl⟩
    | newPad limit first free =>
      exact serve_pad_eq_ok_iff.mpr ⟨limit, _, rfl, requestPad_of_new first free, rfl⟩

/-- A request that was granted can be granted again, and then nothing changes, in any graph that the
graph may have grown into. -/
lemma Serves.again (h : g.Serves q e g') (hin : g'.Within g'') : g''.Serves q e g'' := by
  cases h with
  | knownSource known => exact .knownSource (hin.owners known)
  | newSource free => exact .knownSource (hin.owners (SortedMap.find?_insert_self _ _ _))
  | knownPad limit asked same => exact .knownPad limit (hin.pads asked) same
  | newPad limit first free =>
    exact .knownPad limit (hin.pads (SortedMap.find?_insert_self _ _ _)) fun _ h => h

end Graph

/-! ## Calls -/

/-- The request that a call makes. Without a position it is for the pad 0. -/
def Call.request? : Call → Option Request
  | .source _ text => some (.source text)
  | .output h label pad => some (.pad ⟨h.node, pad.getD 0⟩ label)
  | .node _ _ _ _ _ | .multiOutput _ _ _ _ | .filter _ _ _ _ | .concat _ _ _ => none
  | .apply _ _ _ | .applyWith _ _ _ _ _ | .split _ | .asplit _ | .concatAfter _ _ _ => none
  | .sink _ | .build _ _ | .compile _ _ _ => none

/-- The work of a call that makes a request is to serve it. -/
lemma Edit.ofCall_of_request {call : Call} {q : Request} (h : call.request? = some q) :
    ofCall call = Answer.stream <$> step fun g => g.serve q := by
  cases call <;> simp only [Call.request?, reduceCtorEq, Option.some.injEq] at h <;> subst h <;> rfl

/-- What becomes of a session by a call that makes a request. -/
lemma Session.perform_of_request (s : Session) {call : Call} {q : Request}
    (h : call.request? = some q) :
    s.perform call =
      match (s.graph call.target).serve q with
      | .ok (stream, g') => (.ok (.stream stream), s.update call.target ⟨g', #[]⟩)
      | .error e => (.error e, s) := by
  rw [perform, Edit.ofCall_of_request h, map_eq_pure_bind, EStateM.run_bind, Edit.step_run]
  cases (s.graph call.target).serve q with
  | ok r => rfl
  | error e =>
    dsimp only
    rw [update_unchanged]

namespace Client

variable {c : Client} {call : Call} {q : Request}

lemma answer_of_serves (hc : c.Sound) (hq : call.request? = some q) {e : Endpoint} {g' : Graph}
    (h : (c.session.graph call.target).Serves q e g') :
    c.answer call = .ok (.stream ⟨call.target, e, .filterable⟩) ∧
    (c.after call).session = c.session.update call.target ⟨g', #[]⟩ := by
  have hserve := (Graph.serve_eq_ok_iff_serves (hc.wellFormed _)).mpr ⟨e, h, rfl⟩
  have hperform := c.session.perform_of_request hq
  rw [hserve, hc.graph_id] at hperform
  have hanswer : c.answer call = .ok (.stream ⟨call.target, e, .filterable⟩) := by
    rw [answer, hperform]
  exact ⟨hanswer, by rw [after, hanswer, hperform]⟩

/-- A call for a stream is granted in one of the four ways, or refused without an effect. -/
lemma serves_or_refused (hc : c.Sound) (hq : call.request? = some q) :
    (∃ e g', (c.session.graph call.target).Serves q e g') ∨
      ∃ err, c.answer call = .error err ∧ c.after call = c := by
  cases hserve : (c.session.graph call.target).serve q with
  | ok r =>
    obtain ⟨e, hserves, -⟩ :=
      (Graph.serve_eq_ok_iff_serves (hc.wellFormed _)).mp (hserve.trans rfl)
    exact .inl ⟨e, r.2, hserves⟩
  | error err =>
    have hperform := c.session.perform_of_request hq
    rw [hserve] at hperform
    have hanswer : c.answer call = .error err := by rw [answer, hperform]
    exact .inr ⟨err, hanswer, by rw [after, hanswer, hperform]⟩

/-- **A call for a stream is granted in one of four ways, or nothing happens.** It is granted
exactly if what it asks for is known already and the label fits, or is new and the label, if one is
given, names nothing; a pad must be below the limit and a text must be a label. The answer is a
filterable stream from the endpoint, and at most the pad and its label, or the label of the endpoint
outside, are added to the graph. Asked again at any later time, the call is answered the same and
changes nothing. If the call is refused, everything is as before.

**Proof sketch.** In a well-formed graph a label that names a pad is the label that the pad was
asked for under, so a pad that is new is bound to no label (`Graph.requestPad_eq_ok_of_paired`).
Graphs only grow, so what a request left behind is still there when it is repeated
(`Graph.Serves.again`). -/
theorem served_or_unchanged (hc : c.Reachable) (holds : c.Holds call)
    (hq : call.request? = some q) :
    ((∃ a, c.answer call = .ok a) ↔
      ∃ e g', (c.session.graph call.target).Serves q e g') ∧
    (∀ e g', (c.session.graph call.target).Serves q e g' →
      c.answer call = .ok (.stream ⟨call.target, e, .filterable⟩) ∧
      (c.after call).session = c.session.update call.target ⟨g', #[]⟩ ∧
      ∀ c', (c.after call).Later c' →
        c'.answer call = c.answer call ∧ (c'.after call).session = c'.session) ∧
    ∀ err, c.answer call = .error err → c.after call = c := by
  have hsound := hc.sound
  refine ⟨?_, fun e g' hserves => ?_, fun err herr => ?_⟩
  · constructor
    · rintro ⟨a, ha⟩
      rcases serves_or_refused hsound hq with hserves | ⟨err, herr, -⟩
      · exact hserves
      · rw [herr] at ha
        cases ha
    · rintro ⟨e, g', hserves⟩
      exact ⟨_, (answer_of_serves hsound hq hserves).1⟩
  · obtain ⟨hanswer, hsession⟩ := answer_of_serves hsound hq hserves
    refine ⟨hanswer, hsession, fun c' hlater => ?_⟩
    have hnext := hsound.step (.call call holds)
    have hwithin := (hlater.grows hnext call.target).within
    have hgraph : (c.after call).session.graph call.target = g' := by
      simp [hsession, Session.update]
    rw [hgraph] at hwithin
    obtain ⟨hanswer', hsession'⟩ :=
      answer_of_serves (hlater.sound hnext) hq (hserves.again hwithin)
    exact ⟨hanswer'.trans hanswer.symm, hsession'.trans (c'.session.update_unchanged _)⟩
  · rcases serves_or_refused hsound hq with ⟨e, g', hserves⟩ | ⟨err', -, hafter⟩
    · rw [(answer_of_serves hsound hq hserves).1] at herr
      cases herr
    · exact hafter

/-- Asking for the third copy of a picture under a label. -/
def thirdCopyCall : Call := .output ⟨0, 0⟩ (some "third") (some 2)

/-- The third copy is new and its label free. It can be asked for again after another call. The
label of the second copy names no endpoint outside, so asking for one under it changes nothing. -/
theorem served_thirdCopy :
    (start.run sampleCalls).Reachable ∧ (start.run sampleCalls).Holds thirdCopyCall ∧
    (start.run sampleCalls).answer thirdCopyCall =
      .ok (.stream ⟨0, .pad ⟨0, 2⟩, .filterable⟩) ∧
    ((((start.run sampleCalls).after thirdCopyCall).after (.source 0 "1:a")).after
      thirdCopyCall).session =
      (((start.run sampleCalls).after thirdCopyCall).after (.source 0 "1:a")).session ∧
    (start.run sampleCalls).after (.source 0 "l1") = start.run sampleCalls := by
  have hrun := reachable_sample
  have holds : (start.run sampleCalls).Holds thirdCopyCall := by decide +kernel
  have hserves : ((start.run sampleCalls).session.graph 0).Serves (.pad ⟨0, 2⟩ (some "third"))
      (.pad ⟨0, 2⟩) (((start.run sampleCalls).session.graph 0).withPad ⟨0, 2⟩
        (some ⟨"third", by decide⟩)) := by
    refine @Graph.Serves.newPad _ ⟨0, 2⟩ (some ⟨"third", by decide⟩) ?_ ?_ ?_
    · decide
    · decide +kernel
    · rintro l ⟨⟩
      decide +kernel
  have hq : thirdCopyCall.request? = some (.pad ⟨0, 2⟩ (some "third")) := rfl
  have htarget : thirdCopyCall.target = 0 := rfl
  obtain ⟨-, hgranted, -⟩ := served_or_unchanged hrun holds hq
  rw [htarget] at hgranted
  obtain ⟨hanswer, -, hagain⟩ := hgranted _ _ hserves
  have hlater : ((start.run sampleCalls).after thirdCopyCall).Later
      (((start.run sampleCalls).after thirdCopyCall).after (.source 0 "1:a")) :=
    .single (.call _ (by decide +kernel))
  have hsource : (Call.source 0 "l1").request? = some (.source "l1") := rfl
  obtain ⟨-, -, hrefused⟩ := served_or_unchanged hrun (by decide +kernel) hsource
  exact ⟨hrun, holds, hanswer, (hagain _ hlater).2,
    hrefused (.duplicateLabel "l1") (by decide +kernel)⟩

end Client

end MediaGraph
