import MediaGraph.Proofs.Description.Elaboration

/-!
# References with two readings

The label of a source may hold colons and digits, so it can look like the name of a node with the
position of a pad behind it. The check of a description compares whole names with the labels of
sources, but not names with positions. Here it is said which references of an accepted description
have two readings, and which of the two is taken when the description is built.

## Main definitions

* `MediaGraph.Description.Reading` — a source, or a pad of a node, that a reference is read as.
* `MediaGraph.Description.ReadsAs` — the readings of a reference, none of them preferred.
* `MediaGraph.Description.Imitates` — the label of a source looks like a pad of a node.

## Main results

* `MediaGraph.Description.existsUnique_readsAs_iff` — the references of an accepted description
  have one reading each, if and only if none of them is a label that looks like a pad of a node.
-/

set_option autoImplicit false

namespace MediaGraph.Description

/-! ## Readings -/

/-- What a reference can be read as. -/
inductive Reading where
  /-- The stream from outside under a label. -/
  | source (l : Label)
  /-- A pad of a node of the description. -/
  | pad (ref : Reference)
  deriving DecidableEq

/-- Whether a text can be read in some way: as the label of a source, or as a pad of a node. One
does not exclude the other. -/
inductive ReadsAs (d : Description) (r : String) : Reading → Prop where
  /-- The text is the label of a source. -/
  | source {l : Label} (mem : l ∈ d.sources) (text : l.text = r) : ReadsAs d r (.source l)
  /-- The text names a pad of a node. -/
  | pad {ref : Reference} {n : NodeEntry} (names : Names r ref) (mem : n ∈ d.nodes)
      (id : n.id = ref.id) : ReadsAs d r (.pad ref)

/-- Whether the label of a source looks like a pad of a node: behind the name of the node and a
colon there is a number of 32 bits. -/
def Imitates (d : Description) (l : Label) : Prop :=
  ∃ n ∈ d.nodes, ∃ (digits : String) (pad : Nat), l.text = n.id ++ ":" ++ digits ∧
    ':' ∉ digits.toList ∧ Numeral.natural? digits.toList = some pad ∧ pad < 2 ^ 32

/-- A text names at most one pad. -/
lemma Names.unique {r : String} {ref ref' : Reference} (h : Names r ref) (h' : Names r ref') :
    ref = ref' := by
  have hread := readReference_eq_ok_iff.mpr h
  rw [readReference_eq_ok_iff.mpr h'] at hread
  exact (Except.ok.inj hread).symm

variable {d : Description} {r : String}

/-- What is referred to can be read in some way. -/
lemma exists_readsAs (hr : Refers d.sources d.nodes r) : ∃ reading, d.ReadsAs r reading := by
  rcases hr with ⟨l, hl, htext⟩ | ⟨ref, names, n, hn, hid⟩
  · exact ⟨_, .source hl htext⟩
  · exact ⟨_, .pad names hn hid⟩

/-- As long as no name is the label of a source, such a label can be read as a pad only if it looks
like one. -/
lemma readsAs_pad_iff_imitates (hd : d.WellNamed) {l : Label} (hl : l ∈ d.sources) :
    (∃ ref, d.ReadsAs l.text (.pad ref)) ↔ d.Imitates l := by
  constructor
  · rintro ⟨ref, ⟨⟩ | ⟨⟨plain⟩ | ⟨split, last, number, width⟩, hn, hid⟩⟩
    · exact (hd.unshadowed _ hn l hl hid.symm).elim
    · exact ⟨_, hn, _, _, by rw [split, hid], last, number, width⟩
  · rintro ⟨n, hn, digits, pad, split, last, number, width⟩
    exact ⟨⟨n.id, pad⟩, .pad (.position split last number width) hn rfl⟩

/-- A text that can be read has one reading, if it is not a label that looks like a pad. -/
lemma existsUnique_of_not_imitates (hd : d.WellNamed) (hr : Refers d.sources d.nodes r)
    (h : ∀ l ∈ d.sources, l.text = r → ¬ d.Imitates l) : ∃! reading, d.ReadsAs r reading := by
  obtain ⟨reading, hreading⟩ := exists_readsAs hr
  refine ⟨reading, hreading, fun other hother => ?_⟩
  have hpad : ∀ l ∈ d.sources, l.text = r → ∀ ref, ¬ d.ReadsAs r (.pad ref) := by
    rintro l hl rfl ref href
    exact h l hl rfl ((readsAs_pad_iff_imitates hd hl).mp ⟨ref, href⟩)
  cases hreading with
  | source mem text =>
    cases hother with
    | source mem' text' => rw [Label.text_injective (text'.trans text.symm)]
    | pad names mem' id => exact (hpad _ mem text _ (.pad names mem' id)).elim
  | pad names mem id =>
    cases hother with
    | source mem' text' => exact (hpad _ mem' text' _ (.pad names mem id)).elim
    | pad names' mem' id' => rw [names'.unique names]

/-- **The references of an accepted description have one reading each, if and only if none of them
is the label of a source that looks like a pad of a node.** The check does not rule that out. Such
a reference means the stream from outside, whatever else it can be read as.

**Proof sketch.** The check leaves no reference without a reading. A text names at most one pad
(`Names.unique`), and the name of a node alone is never the label of a source, so two readings are
those of a label with a position behind its last colon. -/
theorem existsUnique_readsAs_iff (h : d.validate = .ok ()) :
    ((∀ r ∈ d.references, ∃! reading, d.ReadsAs r reading) ↔
      ∀ r ∈ d.references, ∀ l ∈ d.sources, l.text = r → ¬ d.Imitates l) ∧
    ∀ r ∈ d.references, ∀ l, d.ReadsAs r (.source l) →
      ∀ first e, d.Means first r e ↔ e = .external l := by
  have hd := validate_eq_ok_iff.mp h
  refine ⟨⟨?_, fun hlooks r hr => ?_⟩, fun r hr l hl first e => ?_⟩
  · rintro hone r hr l hl rfl himitates
    obtain ⟨ref, href⟩ := (readsAs_pad_iff_imitates hd hl).mpr himitates
    have hsame := (hone _ hr).unique (.source hl rfl) href
    cases hsame
  · exact existsUnique_of_not_imitates hd (hd.refers hr) (hlooks r hr)
  · obtain ⟨mem, rfl⟩ := hl
    have hendpoint : d.endpoint first _ = .external _ := endpoint_source mem
    rw [← hendpoint]
    constructor
    · exact fun hmeans => hmeans.eq_endpoint hd
    · rintro rfl
      exact means_endpoint hd (hd.refers hr)

/-- A picture from outside is split, and its second copy is flipped. -/
def flippedCopy (label : Label) : Description :=
  ⟨[label],
    [⟨"a", "split", [label.text], some 1, [], ∅, []⟩, ⟨"b", "hflip", ["a:1"], some 1, [], ∅, []⟩],
    ["b"]⟩

/-- If the picture has the label `0:1`, no reference has two readings. -/
theorem existsUnique_readsAs_plain :
    (flippedCopy ⟨"0:1", by decide⟩).validate = .ok () ∧
    ∀ r ∈ (flippedCopy ⟨"0:1", by decide⟩).references,
      ∃! reading, (flippedCopy ⟨"0:1", by decide⟩).ReadsAs r reading := by
  have hcheck : (flippedCopy ⟨"0:1", by decide⟩).validate = .ok () := by decide +kernel
  refine ⟨hcheck, (existsUnique_readsAs_iff hcheck).1.mpr ?_⟩
  rintro r - l hl - ⟨n, hn, digits, pad, split, -⟩
  obtain rfl : l = ⟨"0:1", by decide⟩ := by simpa [flippedCopy] using hl
  -- the label starts with a digit, the names of the nodes with letters
  have hchars := congrArg String.toList split
  have hid : n.id = "a" ∨ n.id = "b" := by
    rcases List.mem_cons.mp hn with rfl | hn
    · exact .inl rfl
    · obtain rfl := List.mem_singleton.mp hn
      exact .inr rfl
  rcases hid with hid | hid <;> simp [hid] at hchars

/-- If the picture has the label `a:1`, the check accepts the description as well. What is flipped
can be read as the picture and as its second copy, and it is the picture. -/
theorem two_readings_imitating :
    (flippedCopy ⟨"a:1", by decide⟩).validate = .ok () ∧
    "a:1" ∈ (flippedCopy ⟨"a:1", by decide⟩).references ∧
    (flippedCopy ⟨"a:1", by decide⟩).ReadsAs "a:1" (.source ⟨"a:1", by decide⟩) ∧
    (flippedCopy ⟨"a:1", by decide⟩).ReadsAs "a:1" (.pad ⟨"a", 1⟩) ∧
    ∃ ss dr, (flippedCopy ⟨"a:1", by decide⟩).build.run ⟨.empty 0, #[]⟩ = .ok ss dr ∧
      (dr.graph.node? 1).map Node.inputs = some [.external ⟨"a:1", by decide⟩] := by
  refine ⟨by decide +kernel, by decide, .source (List.mem_singleton_self _) rfl, ?_, ?_⟩
  · refine .pad (n := ⟨"a", "split", ["a:1"], some 1, [], ∅, []⟩) ?_ List.mem_cons_self rfl
    have split : "a:1" = "a" ++ ":" ++ "1" := rfl
    exact .position split (by decide) (by decide) (by decide)
  · exact ⟨_, _, rfl, by decide +kernel⟩

end MediaGraph.Description
