import Mathlib.Algebra.Group.Nat.Defs
import Mathlib.Data.List.Nodup
import MediaGraph.Description
import MediaGraph.Proofs.Graph.Construction

/-!
# Names and references

A reference that is not the label of a source names a node, and a pad of it behind the last colon.
The check of a description is made entry by entry and refuses the first that breaks a rule. What
it accepts is said here without any order: nodes have plain names of their own, and everything
that is referred to is there, for the inputs of a node in front of it.

## Main definitions

* `MediaGraph.Description.Names` — the node and the pad that a text names.
* `MediaGraph.Description.Refers` — a text is the label of a source or names one of some nodes.
* `MediaGraph.Description.WellNamed` — the names and references of a description are in order.

## Main results

* `MediaGraph.Description.readReference_eq_ok_iff` — reading finds what a text names.
* `MediaGraph.Description.validate_eq_ok_iff` — the check accepts what is in order.
-/

set_option autoImplicit false

namespace MediaGraph.Description

/-! ## What a text names -/

/-- Whether the text `r` names a pad of a node. The name of the node alone stands for its pad 0;
otherwise the position of the pad, a number of 32 bits, is behind the last colon. -/
inductive Names (r : String) : Reference → Prop where
  /-- The name of a node alone. -/
  | alone (plain : ':' ∉ r.toList) : Names r ⟨r, 0⟩
  /-- The name of a node and the position of a pad. -/
  | position {id digits : String} {pad : Nat} (split : r = id ++ ":" ++ digits)
      (last : ':' ∉ digits.toList) (number : Numeral.natural? digits.toList = some pad)
      (width : pad < 2 ^ 32) : Names r ⟨id, pad⟩

lemma ne_colon_of_mem_reverse {cs : List Char} (h : ':' ∉ cs) :
    ∀ c ∈ cs.reverse, (c != ':') = true := by
  intro c hc
  have hne : c ≠ ':' := by
    rintro rfl
    exact h (List.mem_reverse.mp hc)
  simpa using hne

lemma splitLastColon_of_not_mem {cs : List Char} (h : ':' ∉ cs) : splitLastColon cs = none := by
  rw [splitLastColon, List.dropWhile_eq_nil_iff.mpr (ne_colon_of_mem_reverse h)]

lemma splitLastColon_append {front back : List Char} (h : ':' ∉ back) :
    splitLastColon (front ++ ':' :: back) = some (front, back) := by
  have hall := ne_colon_of_mem_reverse h
  have hrev : (front ++ ':' :: back).reverse = back.reverse ++ ':' :: front.reverse := by simp
  rw [splitLastColon, hrev, List.dropWhile_append_of_pos hall, List.takeWhile_append_of_pos hall]
  simp

/-- A text with a colon has a last one. -/
lemma exists_last_colon {cs : List Char} (h : ':' ∈ cs) :
    ∃ front back, cs = front ++ ':' :: back ∧ ':' ∉ back := by
  obtain ⟨as, bs, hsplit, hnot⟩ := List.eq_append_cons_of_mem (List.mem_reverse.mpr h)
  refine ⟨bs.reverse, as.reverse, ?_, by simpa using hnot⟩
  simpa using congrArg List.reverse hsplit

/-- A text without a colon is the name of a node. -/
lemma readReference_alone {r : String} (h : ':' ∉ r.toList) : readReference r = .ok ⟨r, 0⟩ := by
  rw [readReference, splitLastColon_of_not_mem h]

/-- Behind the last colon stands the position of a pad, or the text names nothing. -/
lemma readReference_position {r : String} {front back : List Char}
    (hsplit : r.toList = front ++ ':' :: back) (hlast : ':' ∉ back) {ref : Reference} :
    readReference r = .ok ref ↔ ∃ pad,
      Numeral.natural? back = some pad ∧ pad < 2 ^ 32 ∧ ref = ⟨String.ofList front, pad⟩ := by
  rw [readReference, hsplit, splitLastColon_append hlast]
  constructor
  · intro h
    cases hnumber : Numeral.natural? back with
    | none => simp [hnumber] at h
    | some pad =>
      simp only [hnumber] at h
      split at h
      · next hwidth =>
        rw [Width.max32] at hwidth
        exact ⟨pad, rfl, by omega, (Except.ok.inj h).symm⟩
      · simp at h
  · rintro ⟨pad, hnumber, hwidth, rfl⟩
    have hpad : pad ≤ Width.max32 := by
      rw [Width.max32]
      omega
    simp only [hnumber, if_pos hpad]

/-- **Reading a reference finds what it names**, if it names something. -/
theorem readReference_eq_ok_iff {r : String} {ref : Reference} :
    readReference r = .ok ref ↔ Names r ref := by
  by_cases hcolon : ':' ∈ r.toList
  · obtain ⟨front, back, hsplit, hlast⟩ := exists_last_colon hcolon
    rw [readReference_position hsplit hlast]
    constructor
    · rintro ⟨pad, hnumber, hwidth, rfl⟩
      have htext : r = String.ofList front ++ ":" ++ String.ofList back := by
        rw [← String.toList_inj, hsplit]
        simp
      exact .position htext (by simpa using hlast) (by simpa using hnumber) hwidth
    · rintro (⟨plain⟩ | ⟨split, last, number, width⟩)
      · exact (plain hcolon).elim
      · next id digits pad =>
        -- a text has one last colon, so both have the same parts
        have hsame : id.toList ++ ':' :: digits.toList = front ++ ':' :: back := by
          rw [← hsplit, split]
          simp
        have hparts := congrArg splitLastColon hsame
        rw [splitLastColon_append last, splitLastColon_append hlast] at hparts
        obtain ⟨rfl, rfl⟩ := Prod.mk.inj (Option.some.inj hparts)
        exact ⟨pad, number, width, by rw [String.ofList_toList]⟩
  · rw [readReference_alone hcolon]
    constructor
    · intro h
      obtain rfl := Except.ok.inj h
      exact .alone hcolon
    · rintro (⟨plain⟩ | ⟨split, last, number, width⟩)
      · rfl
      · simp [split] at hcolon

/-! ## Names and references in order -/

/-- Whether a text is the label of one of the sources or else names a pad of one of the nodes. -/
def Refers (sources : List Label) (nodes : List NodeEntry) (r : String) : Prop :=
  (∃ l ∈ sources, l.text = r) ∨ ∃ ref, Names r ref ∧ ∃ n ∈ nodes, n.id = ref.id

/-- Whether the names and references of a description are in order. -/
structure WellNamed (d : Description) : Prop where
  /-- A node has a name. -/
  nonempty : ∀ n ∈ d.nodes, n.id ≠ ""
  /-- No name holds a colon. -/
  plain : ∀ n ∈ d.nodes, ':' ∉ n.id.toList
  /-- No two nodes have the same name. -/
  distinct : (d.nodes.map NodeEntry.id).Nodup
  /-- No name is the label of a source. -/
  unshadowed : ∀ n ∈ d.nodes, ∀ l ∈ d.sources, l.text ≠ n.id
  /-- A node reads from sources and from nodes in front of it. -/
  inputs : ∀ before n after, d.nodes = before ++ n :: after →
    ∀ r ∈ n.inputs, Refers d.sources before r
  /-- The graph ends in sources and nodes. -/
  outputs : ∀ r ∈ d.outputs, Refers d.sources d.nodes r

/-- Whether a node may stand behind others. -/
structure NodeEntry.Follows (n : NodeEntry) (sources : List Label) (before : List NodeEntry) :
    Prop where
  /-- It has a name. -/
  nonempty : n.id ≠ ""
  /-- The name holds no colon. -/
  plain : ':' ∉ n.id.toList
  /-- The name is not the label of a source. -/
  unshadowed : ∀ l ∈ sources, l.text ≠ n.id
  /-- What the node reads is there. -/
  inputs : ∀ r ∈ n.inputs, Refers sources before r
  /-- No other node has the name. -/
  fresh : ∀ m ∈ before, m.id ≠ n.id

/-- Elements of a list are pairwise related if each is related to those in front of it. -/
lemma pairwise_iff_forall_split {α : Type} {R : α → α → Prop} {l : List α} :
    l.Pairwise R ↔ ∀ before a after, l = before ++ a :: after → ∀ b ∈ before, R b a := by
  constructor
  · rintro h before a after rfl b hb
    exact (List.pairwise_append.mp h).2.2 b hb a List.mem_cons_self
  · intro h
    rw [List.pairwise_iff_getElem]
    intro i j hi hj hij
    refine h (l.take j) l[j] (l.drop (j + 1)) (by simp) _ ?_
    exact List.mem_take_iff_getElem.mpr ⟨i, by omega, rfl⟩

/-- A description is in order exactly if each node may stand where it does. -/
lemma wellNamed_iff {d : Description} :
    d.WellNamed ↔
      (∀ before n after, d.nodes = before ++ n :: after → n.Follows d.sources before) ∧
        ∀ r ∈ d.outputs, Refers d.sources d.nodes r := by
  constructor
  · intro h
    refine ⟨fun before n after hsplit => ?_, h.outputs⟩
    have hn : n ∈ d.nodes := by simp [hsplit]
    have hdistinct := pairwise_iff_forall_split.mp (List.pairwise_map.mp h.distinct)
    exact ⟨h.nonempty n hn, h.plain n hn, h.unshadowed n hn, h.inputs before n after hsplit,
      hdistinct before n after hsplit⟩
  · rintro ⟨hnodes, houtputs⟩
    have hfollows : ∀ n ∈ d.nodes, ∃ before, n.Follows d.sources before := by
      intro n hn
      obtain ⟨before, after, hsplit⟩ := List.append_of_mem hn
      exact ⟨before, hnodes before n after hsplit⟩
    have hdistinct : d.nodes.Pairwise fun m n => m.id ≠ n.id :=
      pairwise_iff_forall_split.mpr fun before n after hsplit =>
        (hnodes before n after hsplit).fresh
    constructor
    case nonempty => exact fun n hn => (hfollows n hn).elim fun _ h => h.nonempty
    case plain => exact fun n hn => (hfollows n hn).elim fun _ h => h.plain
    case distinct => exact List.pairwise_map.mpr hdistinct
    case unshadowed => exact fun n hn => (hfollows n hn).elim fun _ h => h.unshadowed
    case inputs => exact fun before n after hsplit => (hnodes before n after hsplit).inputs
    case outputs => exact houtputs

/-! ## The check -/

lemma checkReference_eq_ok_iff {sources : List Label} {ids : List String}
    {nodes : List NodeEntry} (hids : ∀ id, id ∈ ids ↔ ∃ n ∈ nodes, n.id = id) {r : String} :
    checkReference (sources.map Label.text) ids r = .ok () ↔ Refers sources nodes r := by
  unfold checkReference Refers
  by_cases hsource : ∃ l ∈ sources, l.text = r
  · have hmem : (sources.map Label.text).contains r = true := by simpa using hsource
    simp [hsource, pure, Except.pure]
  · have hmem : (sources.map Label.text).contains r = false := by simpa using hsource
    simp only [hmem, hsource, Bool.false_eq_true, if_false, false_or, except_bind_eq_ok_iff,
      readReference_eq_ok_iff, ← hids]
    refine exists_congr fun ref => and_congr_right fun _ => ?_
    by_cases hid : ref.id ∈ ids <;>
      simp [hid, pure, Except.pure, throw, throwThe, MonadExceptOf.throw]

lemma checkReferences_eq_ok_iff {sources : List Label} {ids : List String}
    {nodes : List NodeEntry} (hids : ∀ id, id ∈ ids ↔ ∃ n ∈ nodes, n.id = id)
    {rs : List String} :
    checkReferences (sources.map Label.text) ids rs = .ok () ↔
      ∀ r ∈ rs, Refers sources nodes r := by
  induction rs with
  | nil => simp [checkReferences]
  | cons r rest ih =>
    rw [checkReferences, except_then_eq_ok_iff, checkReference_eq_ok_iff hids, ih,
      List.forall_mem_cons]

lemma checkNode_eq_ok_iff {sources : List Label} {ids : List String} {before : List NodeEntry}
    (hids : ∀ id, id ∈ ids ↔ ∃ n ∈ before, n.id = id) {n : NodeEntry} :
    checkNode (sources.map Label.text) ids n = .ok () ↔ n.Follows sources before := by
  unfold checkNode
  rw [except_unless_eq_ok_iff, except_unless_eq_ok_iff, except_then_eq_ok_iff,
    checkReferences_eq_ok_iff hids]
  have hlast : (if ids.contains n.id then throw (.invalid (.duplicateNodeId n.id))
      else pure () : Except Error Unit) = .ok () ↔ ∀ m ∈ before, m.id ≠ n.id := by
    by_cases hid : n.id ∈ ids
    · have hex := (hids n.id).mp hid
      simp [hid, throw, throwThe, MonadExceptOf.throw, hex]
    · have hno : ¬ ∃ m ∈ before, m.id = n.id := fun hex => hid ((hids n.id).mpr hex)
      have hall : ∀ m ∈ before, m.id ≠ n.id := fun m hm heq => hno ⟨m, hm, heq⟩
      simpa [hid, pure, Except.pure] using hall
  rw [hlast]
  constructor
  · rintro ⟨hname, hsource, hinputs, hfresh⟩
    rw [not_or] at hname
    exact ⟨hname.1, by simpa using hname.2, by simpa using hsource, hinputs, hfresh⟩
  · rintro ⟨hempty, hplain, hsource, hinputs, hfresh⟩
    exact ⟨not_or.mpr ⟨hempty, by simpa using hplain⟩, by simpa using hsource, hinputs, hfresh⟩

/-- The check looks at each node with those in front of it. -/
lemma checkNodes_eq_ok_iff {sources : List Label} {ids : List String} {before : List NodeEntry}
    (hids : ∀ id, id ∈ ids ↔ ∃ n ∈ before, n.id = id) {rest : List NodeEntry} :
    checkNodes (sources.map Label.text) ids rest = .ok () ↔
      ∀ done n after, rest = done ++ n :: after → n.Follows sources (before ++ done) := by
  induction rest generalizing ids before with
  | nil => simp [checkNodes]
  | cons n rest ih =>
    have hnext : ∀ id, id ∈ n.id :: ids ↔ ∃ m ∈ before ++ [n], m.id = id := by
      intro id
      simp only [List.mem_cons, hids, List.mem_append, List.not_mem_nil, or_false, or_and_right,
        exists_or, exists_eq_left]
      rw [or_comm, eq_comm (a := id)]
    rw [checkNodes, except_then_eq_ok_iff, checkNode_eq_ok_iff hids, ih hnext]
    constructor
    · rintro ⟨hn, hrest⟩ done m after hsplit
      rcases List.cons_eq_append_iff.mp hsplit with ⟨rfl, hm⟩ | ⟨done', rfl, hrest'⟩
      · obtain ⟨rfl, -⟩ := List.cons.inj hm
        simpa using hn
      · simpa using hrest done' m after hrest'
    · intro h
      refine ⟨by simpa using h [] n rest rfl, fun done m after hsplit => ?_⟩
      simpa using h (n :: done) m after (by rw [hsplit]; rfl)

/-- **The check accepts exactly the descriptions whose names and references are in order.** -/
theorem validate_eq_ok_iff {d : Description} : d.validate = .ok () ↔ d.WellNamed := by
  have hids : ∀ id, id ∈ d.nodes.map NodeEntry.id ↔ ∃ n ∈ d.nodes, n.id = id := by simp
  have hnone : ∀ id, id ∈ ([] : List String) ↔ ∃ n ∈ ([] : List NodeEntry), n.id = id := by simp
  rw [validate, except_then_eq_ok_iff, checkNodes_eq_ok_iff hnone, checkReferences_eq_ok_iff hids,
    wellNamed_iff]
  rfl

end MediaGraph.Description
