import MediaGraph.Proofs.Arguments.Words
import MediaGraph.Proofs.Session.Building

/-!
# Concatenations

A concatenation of filterable streams is refused for its options only: they must be whole numbers
that are the size of a segment, and the streams must come out whole. How many segments there are is
then settled, whatever the caller said, and it is counted without any overflow.

## Main results

* `MediaGraph.Client.segments_of_concat` — when a client can concatenate streams, and the node that
  is added then.
-/

set_option autoImplicit false

namespace MediaGraph

/-- A graph with room accepts a concatenation of its filterable streams. -/
lemma Graph.accepts_concat {g : Graph} {inputs : List Stream} {arguments : Arguments}
    (hinputs : ∀ s ∈ inputs, s.graph = g.id ∧ s.capability = .filterable)
    (hroom : g.nodes.size < 2 ^ 32) :
    g.Accepts ⟨inputs, "concat", .any, arguments, some none⟩ where
  inputs := hinputs
  room := hroom
  name := Node.nameProblem?_eq_none_iff.mp (by decide : Node.nameProblem? "concat" = none)
  arity := by simp
  label := by simp

section Session

variable {s : Session} {i : Nat} {inputs : List Stream} {parts : List Arguments}

/-- Streams that make segments are concatenated, with the number of segments among the arguments. -/
lemma Session.perform_concat_of_segments (hg : (s.graph i).WellFormed)
    (hinputs : ∀ x ∈ inputs, x.graph = (s.graph i).id ∧ x.capability = .filterable)
    (hroom : (s.graph i).nodes.size < 2 ^ 32) {v w n : Int64}
    (h : (Arguments.merge parts).Segments inputs.length v w n) {a : Arguments}
    (ha : a.SaysExcept parts "n" (some (.int n))) :
    s.perform (.concat i inputs parts) =
      (.ok (.stream (s.graph i).nextOutput),
        s.add i ⟨inputs, "concat", .any, a, some none⟩) := by
  have hadds : (Call.concat i inputs parts).addsNode := rfl
  exact Session.perform_of_accepts hg hadds ⟨a, v, w, n, h, ha, rfl⟩
    (Graph.accepts_concat hinputs hroom)

/-- Streams that do not come out whole are not concatenated. -/
lemma Session.perform_concat_of_not_whole (hg : (s.graph i).WellFormed)
    (hno : ¬ ∃ v w, (Arguments.merge parts).ComesOutWhole inputs.length v w) :
    ∃ e, s.perform (.concat i inputs parts) = (.error e, s) := by
  have hadds : (Call.concat i inputs parts).addsNode := rfl
  refine Session.perform_of_not_accepts hg hadds ?_
  rintro ⟨x, ⟨a, v, w, n, h, -, -⟩, -⟩
  exact hno ⟨v, w, h.toComesOutWhole⟩

/-- What is added for a concatenation is the last node. -/
lemma Session.nodes_add_concat (s : Session) (i : Nat) (inputs : List Stream) (a : Arguments) :
    ((s.add i ⟨inputs, "concat", .any, a, some none⟩).graph i).nodes =
      (s.graph i).nodes.push ⟨(s.graph i).nodes.size, "concat", inputs.map Stream.endpoint, .any,
        a⟩ := by
  simp [Session.add, Graph.add, Graph.withPad, Graph.newNode]

end Session

/-- A filterable stream behind others is concatenated as the last of all of them. -/
lemma Edit.concatAfter_eq {s : Stream} (h : s.capability = .filterable) (others : List Stream)
    (parts : List Arguments) : concatAfter s others parts = addConcat (others ++ [s]) parts := by
  have hrequire : s.require .filterable "concat" = .ok () := by
    simp [Stream.require, h, Capability.meets]
  rw [concatAfter, hrequire]
  rfl

namespace Client

variable {c : Client} {i : Nat} {inputs : List Stream}

/-- **Filterable streams of a graph with room can be concatenated exactly if they come out whole**:
the options `v` and `a` of all parts together, by default one and none, are read as numbers of 64
bits that are not negative, their sum is above zero and has 64 bits, and the number of streams is
above zero, has 64 bits and can be divided by that sum. The node that is added reads the streams in
order, and its option `n` is the quotient, which is at least one, whatever it was before; by position
and under every other key it has what the parts say. Counting in machine words gives the same for
all options, with no overflow and no division by zero. To concatenate the last stream behind the
others is the same call.

**Proof sketch.** A concatenation that comes out whole has its number of segments
(`Arguments.ComesOutWhole.exists_segments`), and a graph accepts it for filterable streams
(`Graph.accepts_concat`); then the addition is all that happens. Words are compared with numbers in
`Arguments.forSegmentsInWords_eq`. -/
theorem segments_of_concat (parts : List Arguments) (hc : c.Reachable)
    (hinputs : ∀ s ∈ inputs, s.graph = i ∧ s.capability = .filterable)
    (hroom : (c.session.graph i).nodes.size < 2 ^ 32) :
    ((∃ a, c.answer (.concat i inputs parts) = .ok a) ↔
      ∃ v w, (Arguments.merge parts).ComesOutWhole inputs.length v w) ∧
    (∀ v w, (Arguments.merge parts).ComesOutWhole inputs.length v w →
      ∃ (n : Int64) (a : Arguments),
        n.toInt * (v.toInt + w.toInt) = inputs.length ∧ 1 ≤ n.toInt ∧
        a.positional = Arguments.leading parts ∧ a.get? "n" = some (.int n) ∧
        (∀ key, key ≠ "n" → a.get? key = Arguments.lastValue? parts key) ∧
        c.answer (.concat i inputs parts) =
          .ok (.stream ⟨i, .pad ⟨(c.session.graph i).nodes.size, 0⟩, .filterable⟩) ∧
        ((c.after (.concat i inputs parts)).session.graph i).nodes =
          (c.session.graph i).nodes.push ⟨(c.session.graph i).nodes.size, "concat",
            inputs.map Stream.endpoint, .any, a⟩) ∧
    (∀ (a : Arguments) (count : Nat),
      a.forSegmentsInWords count = some (a.forSegments count)) ∧
    ∀ others s, inputs = others ++ [s] →
      c.answer (.concatAfter s others parts) = c.answer (.concat i inputs parts) ∧
      c.after (.concatAfter s others parts) = c.after (.concat i inputs parts) := by
  have hsound := hc.sound
  have hg := hsound.wellFormed i
  have hid := hsound.graph_id i
  have hown : ∀ s ∈ inputs, s.graph = (c.session.graph i).id ∧ s.capability = .filterable := by
    rw [hid]
    exact hinputs
  have hdone : ∀ v w, (Arguments.merge parts).ComesOutWhole inputs.length v w →
      ∃ n a, (Arguments.merge parts).Segments inputs.length v w n ∧
        a.SaysExcept parts "n" (some (.int n)) ∧
        c.session.perform (.concat i inputs parts) =
          (.ok (.stream (c.session.graph i).nextOutput),
            c.session.add i ⟨inputs, "concat", .any, a, some none⟩) := by
    intro v w h
    obtain ⟨n, hn⟩ := h.exists_segments
    have ha : ((Arguments.merge parts).set "n" (.int n)).SaysExcept parts "n" (some (.int n)) :=
      Arguments.saysExcept_some_iff.mpr rfl
    exact ⟨n, _, hn, ha, Session.perform_concat_of_segments hg hown hroom hn ha⟩
  refine ⟨⟨?_, ?_⟩, fun v w h => ?_, Arguments.forSegmentsInWords_eq, ?_⟩
  · rintro ⟨a, ha⟩
    by_contra hnone
    obtain ⟨e, he⟩ := Session.perform_concat_of_not_whole hg hnone
    simp [answer, he] at ha
  · rintro ⟨v, w, h⟩
    obtain ⟨n, a, -, -, hperform⟩ := hdone v w h
    exact ⟨_, by rw [answer, hperform]⟩
  · obtain ⟨n, a, hn, ⟨hpositional, hnumber, hothers⟩, hperform⟩ := hdone v w h
    refine ⟨n, a, hn.number, hn.one_le, hpositional, hnumber, hothers, ?_, ?_⟩
    · rw [answer, hperform, Graph.nextOutput, hid]
    · rw [session_after, hperform, Session.nodes_add_concat]
  · rintro others s rfl
    obtain ⟨rfl, hfilterable⟩ := hinputs s (by simp)
    refine congr_of_perform_eq ?_
    rw [Session.perform, Session.perform, Edit.ofCall, Edit.ofCall,
      Edit.concatAfter_eq hfilterable]
    rfl

/-- Arguments in two parts: the second one sets the options `v`, by a text, and `a`, by a truth
value, and leaves a number of segments that is wrong. -/
def clipParts : List Arguments :=
  [⟨[], (∅ : SortedMap String Value).insert "v" (.int 5) |>.insert "n" (.int 7)⟩,
    ⟨[], (∅ : SortedMap String Value).insert "v" (.text " 1 ") |>.insert "a" (.bool true)⟩]

/-- Copies of the picture of the sample run, for two segments of two. -/
def clipStreams : List Stream :=
  let copy (pad : Nat) : Stream := ⟨0, .pad ⟨0, pad⟩, .filterable⟩
  [copy 0, copy 1, copy 1, copy 0]

/-- The four copies make two segments, whatever number the parts give; the last three of them do not
come out whole. -/
theorem segments_of_clips :
    (start.run sampleCalls).Reachable ∧
    (start.run sampleCalls).answer (.concat 0 clipStreams clipParts) =
      .ok (.stream ⟨0, .pad ⟨3, 0⟩, .filterable⟩) ∧
    (∃ a : Arguments,
      (((start.run sampleCalls).after
          (.concat 0 clipStreams clipParts)).session.graph 0).nodes[3]? =
        some ⟨3, "concat", clipStreams.map Stream.endpoint, .any, a⟩ ∧
      a.positional = [] ∧ a.get? "n" = some (.int 2) ∧ a.get? "v" = some (.text " 1 ") ∧
      a.get? "a" = some (.bool true) ∧
      ∀ key, key ≠ "n" → key ≠ "v" → key ≠ "a" → a.get? key = none) ∧
    ¬ ∃ v w, (Arguments.merge clipParts).ComesOutWhole 3 v w := by
  have hrun := reachable_sample
  have hinputs : ∀ s ∈ clipStreams, s.graph = 0 ∧ s.capability = .filterable := by decide
  have hroom : ((start.run sampleCalls).session.graph 0).nodes.size < 2 ^ 32 := by decide +kernel
  have hwhole : (Arguments.merge clipParts).ComesOutWhole clipStreams.length 1 1 := by
    constructor <;> decide +kernel
  obtain ⟨-, hadded, -⟩ := segments_of_concat clipParts hrun hinputs hroom
  obtain ⟨n, a, hn, -, hpositional, hnumber, hothers, hanswer, hnodes⟩ := hadded 1 1 hwhole
  have hfewer : ∀ s ∈ clipStreams.tail, s.graph = 0 ∧ s.capability = .filterable := by decide
  obtain ⟨hiff, -⟩ := segments_of_concat clipParts hrun hfewer hroom
  have hsize : ((start.run sampleCalls).session.graph 0).nodes.size = 3 := by decide +kernel
  refine ⟨hrun, ?_, ⟨a, ?_, hpositional, ?_, ?_, ?_, fun key hkn hkv hka => ?_⟩, fun hclips => ?_⟩
  · rw [hanswer, hsize]
  · rw [hnodes, ← hsize, Array.getElem?_push_size, hsize]
  · have htwo : n = 2 := by
      rw [← Int64.toInt_inj]
      have hfour : n.toInt * 2 = 4 := hn
      have : (2 : Int64).toInt = 2 := by decide
      omega
    rw [hnumber, htwo]
  · rw [hothers "v" (by decide)]
    rfl
  · rw [hothers "a" (by decide)]
    rfl
  · rw [hothers key hkn]
    simp [clipParts, Arguments.get?, SortedMap.find?_insert, hkn, hkv, hka]
  · obtain ⟨a, ha⟩ := hiff.mpr hclips
    have hrefused : ((start.run sampleCalls).answer (.concat 0 clipStreams.tail clipParts)).isOk =
        false := by
      decide +kernel
    simp [ha, Except.isOk, Except.toBool] at hrefused

end Client

end MediaGraph
