import MediaGraph.Expression.Reading
import MediaGraph.Proofs.Expression.Wiring

/-!
# Reading what was written

An expression that is written with escaping is read back as what was written: the labels, the filter
and the parameters of every node. A text is read from left to right, and a written part of it reads
as the same marks whatever stands behind it, so the marks of an expression are put together from
those of its parts. Separators have their meaning, and in between every character that could be
taken for a separator is escaped.

## Main definitions

* `MediaGraph.Expression.ReadsAs` — a text reads as some marks, whatever stands behind it.
* `MediaGraph.Expression.quoted`, `MediaGraph.Expression.plain` — the marks of a text that is
  escaped, and of one that is not.
* `MediaGraph.Expression.Chain.content` — what is to be read from a node.

## Main results

* `MediaGraph.Expression.readsAs_escape` — an escaped text reads as its characters.
* `MediaGraph.Expression.readSpecification_filterText` — the text of a filter is read back.
* `MediaGraph.Expression.readNodes?_renderAll` — the text of nodes is read back.
* `MediaGraph.Client.readNodes?_of_compile` — so is every expression that a client can compile.
-/

set_option autoImplicit false

namespace MediaGraph

namespace Expression

/-! ## Reading parts of a text -/

/-- A text reads as some marks, whatever stands behind it. -/
def ReadsAs (cs : List Char) (ms : List Mark) : Prop :=
  ∀ rest, marks (cs ++ rest) = ms ++ marks rest

namespace ReadsAs

theorem nil : ReadsAs [] [] := fun _ => rfl

theorem append {cs cs' : List Char} {ms ms' : List Mark} (h : ReadsAs cs ms)
    (h' : ReadsAs cs' ms') : ReadsAs (cs ++ cs') (ms ++ ms') := by
  intro rest
  rw [List.append_assoc, h, h', List.append_assoc]

theorem cons {c : Char} {cs : List Char} {m : Mark} {ms : List Mark} (hc : ReadsAs [c] [m])
    (h : ReadsAs cs ms) : ReadsAs (c :: cs) (m :: ms) := hc.append h

theorem flatMap {α : Type} {f : α → List Char} {h : α → List Mark} {l : List α}
    (hf : ∀ a ∈ l, ReadsAs (f a) (h a)) : ReadsAs (l.flatMap f) (l.flatMap h) := by
  induction l with
  | nil => exact nil
  | cons a rest ih =>
    rw [List.flatMap_cons, List.flatMap_cons]
    exact (hf a List.mem_cons_self).append (ih fun b hb => hf b (List.mem_cons_of_mem _ hb))

/-- Parts with separators in between. -/
theorem intercalate {α : Type} {sep : Char} {m : Mark} (hsep : ReadsAs [sep] [m])
    {f : α → List Char} {h : α → List Mark} {l : List α} (hf : ∀ a ∈ l, ReadsAs (f a) (h a)) :
    ReadsAs (List.intercalate [sep] (l.map f)) (List.intercalate [m] (l.map h)) := by
  induction l with
  | nil => exact nil
  | cons a rest ih =>
    have hrest := ih fun b hb => hf b (List.mem_cons_of_mem _ hb)
    have ha := hf a List.mem_cons_self
    cases rest with
    | nil => simpa using ha
    | cons b rest =>
      simp only [List.map_cons, List.intercalate_cons_cons]
      exact (ha.append hsep).append hrest

/-- A whole text. -/
theorem marks_eq {cs : List Char} {ms : List Mark} (h : ReadsAs cs ms) : marks cs = ms := by
  have := h []
  rwa [List.append_nil, marks, List.append_nil] at this

end ReadsAs

/-- A character that is no backslash reads as itself. -/
lemma readsAs_char {c : Char} (h : c ≠ '\\') : ReadsAs [c] [⟨c, false⟩] := by
  intro rest
  rw [List.singleton_append, marks]
  · rfl
  · intro d rest' hd
    simp [h] at hd

/-- A character behind a backslash reads as itself, without meaning. -/
lemma readsAs_escaped (c : Char) : ReadsAs ['\\', c] [⟨c, true⟩] := fun _ => rfl

/-- The marks of a text in which the special characters are escaped. -/
def quoted (special : List Char) (cs : List Char) : List Mark :=
  cs.map fun c => ⟨c, special.contains c⟩

/-- The marks of a text without escaped characters. -/
def plain (cs : List Char) : List Mark := cs.map fun c => ⟨c, false⟩

@[simp] lemma plainText_quoted (special cs : List Char) : plainText (quoted special cs) = cs := by
  simp [plainText, quoted, Function.comp_def]

@[simp] lemma plainText_plain (cs : List Char) : plainText (plain cs) = cs := by
  simp [plainText, plain, Function.comp_def]

/-- **An escaped text reads as its characters**, the special ones without their meaning. -/
theorem readsAs_escape {special : List Char} (h : '\\' ∈ special) (cs : List Char) :
    ReadsAs (escape special cs) (quoted special cs) := by
  rw [quoted, ← List.flatMap_singleton' (cs.map _), List.flatMap_map]
  refine ReadsAs.flatMap fun c _ => ?_
  split
  · next hc =>
    rw [hc]
    exact readsAs_escaped c
  · next hc =>
    have hne : c ≠ '\\' := by
      rintro rfl
      exact hc (List.contains_iff_mem.mpr h)
    rw [Bool.eq_false_iff.mpr hc]
    exact readsAs_char hne

/-- A text without backslashes reads as its characters, with their meaning. -/
lemma readsAs_plain {cs : List Char} (h : '\\' ∉ cs) : ReadsAs cs (plain cs) := by
  induction cs with
  | nil => exact ReadsAs.nil
  | cons c rest ih =>
    rw [List.mem_cons, not_or] at h
    exact (readsAs_char (Ne.symm h.1)).cons (ih h.2)

/-- A special character that is escaped does not have its meaning. -/
lemma not_means_quoted {special cs : List Char} {c : Char} (h : c ∈ special) :
    ∀ m ∈ quoted special cs, ¬ m.means c := by
  intro m hm
  obtain ⟨d, -, rfl⟩ := List.mem_map.mp hm
  rw [Mark.means, Bool.and_eq_true, not_and]
  intro hd
  obtain rfl := beq_iff_eq.mp hd
  simp [h]

/-- A character that a text does not have is not meant in it. -/
lemma not_means_plain {cs : List Char} {c : Char} (h : c ∉ cs) : ∀ m ∈ plain cs, ¬ m.means c := by
  intro m hm
  obtain ⟨d, hd, rfl⟩ := List.mem_map.mp hm
  have hne : d ≠ c := fun hdc => h (hdc ▸ hd)
  simp [Mark.means, hne]

/-! ## Taking a text apart -/

/-- A part without separators is one piece. -/
lemma pieces_of_not_means {c : Char} {ms : List Mark} (h : ∀ m ∈ ms, ¬ m.means c) :
    pieces c ms = [ms] := by
  induction ms with
  | nil => rfl
  | cons m rest ih =>
    have hm := h m List.mem_cons_self
    rw [pieces, if_neg hm, ih fun x hx => h x (List.mem_cons_of_mem _ hx)]

/-- A part without separators in front of a separator is the first piece. -/
lemma pieces_append {c : Char} {ms : List Mark} (h : ∀ m ∈ ms, ¬ m.means c) (rest : List Mark) :
    pieces c (ms ++ ⟨c, false⟩ :: rest) = ms :: pieces c rest := by
  induction ms with
  | nil => simp [pieces, Mark.means]
  | cons m ms ih =>
    have hm := h m List.mem_cons_self
    rw [List.cons_append, pieces, if_neg hm, ih fun x hx => h x (List.mem_cons_of_mem _ hx)]

/-- The pieces between separators are the parts that were put between separators. -/
theorem pieces_intercalate {c : Char} {parts : List (List Mark)} (hne : parts ≠ [])
    (h : ∀ part ∈ parts, ∀ m ∈ part, ¬ m.means c) :
    pieces c (List.intercalate [⟨c, false⟩] parts) = parts := by
  induction parts with
  | nil => exact absurd rfl hne
  | cons part rest ih =>
    have hpart := h part List.mem_cons_self
    cases rest with
    | nil => simpa using pieces_of_not_means hpart
    | cons next rest =>
      rw [List.intercalate_cons_cons, List.append_assoc, List.singleton_append,
        pieces_append hpart, ih (by simp) fun x hx => h x (List.mem_cons_of_mem _ hx)]

/-- Without a separator there is nothing to split at. -/
lemma splitFirst_of_not_means {c : Char} {ms : List Mark} (h : ∀ m ∈ ms, ¬ m.means c) :
    splitFirst c ms = none := by
  induction ms with
  | nil => rfl
  | cons m rest ih =>
    rw [splitFirst, if_neg (h m List.mem_cons_self), ih fun x hx => h x (List.mem_cons_of_mem _ hx),
      Option.map_none]

/-- A text is split at its first separator. -/
lemma splitFirst_append {c : Char} {ms : List Mark} (h : ∀ m ∈ ms, ¬ m.means c)
    (rest : List Mark) : splitFirst c (ms ++ ⟨c, false⟩ :: rest) = some (ms, rest) := by
  induction ms with
  | nil => simp [splitFirst, Mark.means]
  | cons m ms ih =>
    rw [List.cons_append, splitFirst, if_neg (h m List.mem_cons_self),
      ih fun x hx => h x (List.mem_cons_of_mem _ hx)]
    rfl

/-! ## Reading what is written of a filter -/

namespace Parameter

/-- What a written parameter reads as. -/
def marked : Parameter → List Mark
  | .positional text => quoted argumentSpecial text
  | .keyed key value => quoted argumentSpecial key ++ ⟨'=', false⟩ :: quoted argumentSpecial value

lemma readsAs_write (p : Parameter) : ReadsAs (p.write true) p.marked := by
  have hescape : ∀ cs, ReadsAs (escape argumentSpecial cs) (quoted argumentSpecial cs) :=
    readsAs_escape (by decide)
  cases p with
  | positional text => exact hescape text
  | keyed key value =>
    exact (hescape key).append ((readsAs_char (by decide)).cons (hescape value))

/-- No parameter has a separator of parameters in it. -/
lemma not_means_colon (p : Parameter) : ∀ m ∈ p.marked, ¬ m.means ':' := by
  have hquoted : ∀ cs, ∀ m ∈ quoted argumentSpecial cs, ¬ m.means ':' :=
    fun _ => not_means_quoted (by decide)
  cases p with
  | positional text => exact hquoted text
  | keyed key value =>
    intro m hm
    rcases List.mem_append.mp hm with hm | hm
    · exact hquoted key m hm
    · rcases List.mem_cons.mp hm with rfl | hm
      · decide
      · exact hquoted value m hm

/-- A parameter is read back. The first equals sign that has its meaning is the one behind a key. -/
lemma readParameter_marked (p : Parameter) : readParameter p.marked = p := by
  have hquoted : ∀ cs, ∀ m ∈ quoted argumentSpecial cs, ¬ m.means '=' :=
    fun _ => not_means_quoted (by decide)
  cases p with
  | positional text =>
    rw [readParameter, marked, splitFirst_of_not_means (hquoted text), plainText_quoted]
  | keyed key value =>
    rw [readParameter, marked, splitFirst_append (hquoted key)]
    simp only [plainText_quoted]

end Parameter

lemma filterText_ne_nil {filter : String} (h : filter.toList ≠ []) (params : List Parameter) :
    filterText true filter params ≠ [] := by
  rw [filterText]
  split <;> simp [h]

/-- **The text of a filter is read back**: its name, and its parameters in order.

**Proof sketch.** The name of a filter has no equals sign, so it ends at the one in front of the
parameters. These have no colon with its meaning, so they are the pieces between colons. -/
theorem readSpecification_filterText {filter : String} (h : '=' ∉ filter.toList)
    (params : List Parameter) :
    readSpecification (filterText true filter params) = (filter.toList, params) := by
  have hname : ∀ c ∈ filter.toList, (c != '=') = true := by
    intro c hc
    rw [bne_iff_ne]
    rintro rfl
    exact h hc
  by_cases hnil : params = []
  · subst hnil
    have hdrop : filter.toList.dropWhile (· != '=') = [] := List.dropWhile_eq_nil_iff.mpr hname
    rw [filterText, if_pos rfl, readSpecification, hdrop, List.takeWhile_eq_self_iff.mpr hname]
  · have hmarks : marks (List.intercalate [':'] (params.map (Parameter.write true))) =
        List.intercalate [⟨':', false⟩] (params.map Parameter.marked) :=
      (ReadsAs.intercalate (readsAs_char (by decide)) fun p _ => p.readsAs_write).marks_eq
    have hpieces : pieces ':' (List.intercalate [⟨':', false⟩] (params.map Parameter.marked)) =
        params.map Parameter.marked :=
      pieces_intercalate (by simpa using hnil) (by
        rw [List.forall_mem_map]
        exact fun p _ => p.not_means_colon)
    rw [filterText, if_neg hnil, readSpecification, List.takeWhile_append_of_pos hname,
      List.dropWhile_append_of_pos hname, List.takeWhile_cons_of_neg (by simp),
      List.dropWhile_cons_of_neg (by simp), List.append_nil]
    simp only [hmarks, hpieces, List.map_map, Function.comp_def, Parameter.readParameter_marked,
      List.map_id_fun', id_eq]

/-! ## Reading what is written of a node -/

/-- What a label in brackets reads as. -/
def bracketMarks (l : Label) : List Mark :=
  ⟨'[', false⟩ :: (plain l.text.toList ++ [⟨']', false⟩])

/-- A character that labels must not have does not occur in one. -/
lemma not_mem_label {c : Char} (h : Label.allows c = false) (l : Label) : c ∉ l.text.toList := by
  intro hc
  have hsound := l.sound
  rw [Label.defect?] at hsound
  split at hsound
  · simp at hsound
  · have hallowed := List.findSome?_eq_none_iff.mp hsound c hc
    rw [Label.charDefect?, h] at hallowed
    revert hallowed
    simp only [Bool.false_eq_true, if_false]
    split_ifs <;> simp

lemma readsAs_bracket (l : Label) : ReadsAs (bracket l) (bracketMarks l) :=
  (readsAs_char (by decide)).cons
    ((readsAs_plain (not_mem_label (by decide) l)).append (readsAs_char (by decide)))

/-- A bracket has no separator of nodes in it. -/
lemma not_means_bracketMarks (l : Label) : ∀ m ∈ bracketMarks l, ¬ m.means ';' := by
  intro m hm
  rcases List.mem_cons.mp hm with rfl | hm
  · decide
  · rcases List.mem_append.mp hm with hm | hm
    · exact not_means_plain (not_mem_label (by decide) l) m hm
    · rw [List.mem_singleton.mp hm]
      decide

/-- Whether a text starts with a bracket. -/
def Opens (ms : List Mark) : Prop := ∃ m ∈ ms.head?, m.means '['

/-- The text of a filter starts with no bracket. -/
lemma not_opens_append {cs : List Char} (hne : cs ≠ []) (rest : List Mark) :
    ¬ Opens (quoted graphSpecial cs ++ rest) := by
  obtain ⟨c, cs, rfl⟩ := List.exists_cons_of_ne_nil hne
  have hinside : ∀ m ∈ quoted graphSpecial (c :: cs), ¬ m.means '[' :=
    not_means_quoted (by decide)
  rintro ⟨m, hm, hopen⟩
  obtain rfl : (⟨c, graphSpecial.contains c⟩ : Mark) = m := by simpa [quoted] using hm
  exact hinside _ List.mem_cons_self hopen

/-- A text of brackets starts with one, if there is one. -/
lemma takeWhile_brackets (labels : List Label) :
    (labels.flatMap bracketMarks).takeWhile (fun m => !m.means '[') = [] := by
  cases labels with
  | nil => rfl
  | cons l labels =>
    rw [List.flatMap_cons, bracketMarks, List.cons_append]
    exact List.takeWhile_cons_of_neg (by decide)

lemma dropWhile_brackets (labels : List Label) :
    (labels.flatMap bracketMarks).dropWhile (fun m => !m.means '[') =
      labels.flatMap bracketMarks := by
  cases labels with
  | nil => rfl
  | cons l labels =>
    rw [List.flatMap_cons, bracketMarks, List.cons_append]
    exact List.dropWhile_cons_of_neg (by decide)

/-- Labels in brackets are read back, up to where no bracket follows. -/
lemma readLabels?_brackets {labels : List Label} {rest : List Mark} (hrest : ¬ Opens rest)
    {bound : Nat} (hbound : labels.length ≤ bound) :
    readLabels? bound (labels.flatMap bracketMarks ++ rest) =
      some (labels.map fun l => l.text.toList, rest) := by
  induction labels generalizing bound with
  | nil =>
    rw [List.flatMap_nil, List.nil_append, List.map_nil]
    cases bound with
    | zero => rfl
    | succ bound =>
      cases rest with
      | nil => rfl
      | cons m rest =>
        have hm : ¬ m.means '[' := fun hm => hrest ⟨m, rfl, hm⟩
        rw [readLabels?, if_neg hm]
  | cons l labels ih =>
    cases bound with
    | zero => simp at hbound
    | succ bound =>
      have hclose := not_means_plain (not_mem_label (c := ']') (by decide) l)
      rw [List.flatMap_cons, bracketMarks, List.append_assoc, List.cons_append, List.append_assoc,
        List.singleton_append, readLabels?, if_pos (by decide), splitFirst_append hclose]
      simp only [Option.bind_eq_bind, Option.bind_some,
        ih (Nat.le_of_succ_le_succ hbound), plainText_plain]
      rfl

/-- There is a mark for every label at least. -/
lemma length_le_brackets (labels : List Label) :
    labels.length ≤ (labels.flatMap bracketMarks).length := by
  induction labels with
  | nil => simp
  | cons l labels ih =>
    rw [List.flatMap_cons, List.length_append, List.length_cons, bracketMarks, List.length_cons]
    omega

/-- The labels in brackets and the text of a filter are read back from a node.

**Proof sketch.** All brackets in the text of the filter are escaped, and it is not empty, so the
labels in front end where it starts, and it ends where the labels behind it start. -/
lemma readNode?_parts {inputs outputs : List Label} {cs : List Char} (hne : cs ≠ []) :
    readNode? (inputs.flatMap bracketMarks ++
        (quoted graphSpecial cs ++ outputs.flatMap bracketMarks)) =
      some ⟨inputs.map fun l => l.text.toList, (readSpecification cs).1, (readSpecification cs).2,
        outputs.map fun l => l.text.toList⟩ := by
  have hinside : ∀ m ∈ quoted graphSpecial cs, (!m.means '[') = true := by
    intro m hm
    simpa using not_means_quoted (c := '[') (by decide) m hm
  have hfront := length_le_brackets inputs
  have hbehind := length_le_brackets outputs
  have houtputs : ∀ bound, outputs.length ≤ bound →
      readLabels? bound (outputs.flatMap bracketMarks) =
        some (outputs.map fun l => l.text.toList, []) := by
    intro bound hbound
    have hread : readLabels? bound (outputs.flatMap bracketMarks ++ []) = some (_, []) :=
      readLabels?_brackets (by simp [Opens]) hbound
    rwa [List.append_nil] at hread
  rw [readNode?, readLabels?_brackets (not_opens_append hne _)
    (hfront.trans (by rw [List.length_append]; omega))]
  simp only [Option.bind_eq_bind, Option.bind_some]
  rw [List.takeWhile_append_of_pos hinside, takeWhile_brackets, List.append_nil, plainText_quoted,
    List.dropWhile_append_of_pos hinside, dropWhile_brackets,
    houtputs _ (hbehind.trans (by simp only [List.length_append]; omega))]
  rfl

/-- What a written node reads as. -/
def Chain.marked (c : Chain) : List Mark :=
  c.inputs.flatMap bracketMarks ++
    (quoted graphSpecial (filterText true c.node.filter (argumentParameters c.node.arguments)) ++
      c.outputs.flatMap bracketMarks)

/-- What is to be read from a written node. -/
def Chain.content (c : Chain) : ReadNode where
  inputs := c.inputs.map fun l => l.text.toList
  filter := c.node.filter.toList
  parameters := argumentParameters c.node.arguments
  outputs := c.outputs.map fun l => l.text.toList

namespace Chain

variable {c : Chain}

lemma readsAs_render (c : Chain) : ReadsAs (c.render true) c.marked := by
  have hbrackets := fun ls : List Label => ReadsAs.flatMap fun l (_ : l ∈ ls) => readsAs_bracket l
  rw [render, marked, specification_eq, List.append_assoc]
  exact (hbrackets c.inputs).append
    ((readsAs_escape (by decide) _).append (hbrackets c.outputs))

/-- A node has no separator of nodes in it. -/
lemma not_means_semicolon (c : Chain) : ∀ m ∈ c.marked, ¬ m.means ';' := by
  have hbrackets : ∀ ls : List Label, ∀ m ∈ ls.flatMap bracketMarks, ¬ m.means ';' := by
    intro ls m hm
    obtain ⟨l, -, hm⟩ := List.mem_flatMap.mp hm
    exact not_means_bracketMarks l m hm
  intro m hm
  rcases List.mem_append.mp hm with hm | hm
  · exact hbrackets c.inputs m hm
  · rcases List.mem_append.mp hm with hm | hm
    · exact not_means_quoted (by decide) m hm
    · exact hbrackets c.outputs m hm

/-- **A node is read back**: its labels, the name of its filter, and its parameters. -/
theorem readNode?_marked (hname : Node.IsFilterName c.node.filter) :
    readNode? c.marked = some c.content := by
  have hequals : '=' ∉ c.node.filter.toList := fun hmem => by
    simpa using (hname.2 _ hmem).2
  rw [marked, readNode?_parts (filterText_ne_nil hname.1 _),
    readSpecification_filterText hequals]
  rfl

end Chain

/-- **The text of nodes is read back**, if there are any. -/
theorem readNodes?_renderAll {chains : List Chain} (hne : chains ≠ [])
    (hnames : ∀ c ∈ chains, Node.IsFilterName c.node.filter) :
    readNodes? (renderAll true chains) = some (chains.map Chain.content) := by
  have hmarks : marks (renderAll true chains) =
      List.intercalate [⟨';', false⟩] (chains.map Chain.marked) :=
    (ReadsAs.intercalate (readsAs_char (by decide)) fun c _ => c.readsAs_render).marks_eq
  have hpieces : pieces ';' (List.intercalate [⟨';', false⟩] (chains.map Chain.marked)) =
      chains.map Chain.marked :=
    pieces_intercalate (by simpa using hne) (by
      rw [List.forall_mem_map]
      exact fun c _ => c.not_means_semicolon)
  rw [readNodes?, hmarks, hpieces, List.mapM_map]
  exact mapM_eq_pure fun c hc => Chain.readNode?_marked (hnames c hc)

end Expression

/-! ## Reading what a client compiles -/

namespace Client

variable {c : Client} {i : Nat} {terminals : List Stream} {settings : Settings}

/-- **Every expression that a client compiles with escaping is read back as what it was written
from**: as many nodes as it was compiled from, and for each of them, in order, the labels of its
inputs, the name of its filter, its arguments by position and its options, and the labels of its
outputs.

**Proof sketch.** The expression is written from the nodes behind the terminals
(`Client.Sound.compile_eq_ok`). There is one, and all have filter names, so what is written is read
back (`Expression.readNodes?_renderAll`). -/
theorem readNodes?_of_compile (hc : c.Reachable)
    (hholds : c.Holds (.compile i terminals settings)) (hescape : settings.escape = true)
    {e : Expression} (h : c.answer (.compile i terminals settings) = .ok (.expression e)) :
    ∃ (chains : List Expression.Chain) (label : Endpoint → Label),
      e.nodeCount = chains.length ∧
      Expression.Wired (c.session.graph i) (terminals.map Stream.endpoint) chains e label ∧
      Expression.readNodes? e.text.toList = some (chains.map Expression.Chain.content) := by
  have hsound := hc.sound
  obtain ⟨nodes, labelling, hne, hknown, ho, hsuits, rfl⟩ := hsound.compile_eq_ok hholds h
  refine ⟨nodes.map ((c.session.graph i).chain labelling),
    labelling.name (c.session.graph i), ?_, ?_, ?_⟩
  · rw [Graph.expression, List.length_map]
  · exact Graph.wired_expression (hsound.wellFormed i) hknown ho hsuits
  · rw [Graph.expression, String.toList_ofList, hescape]
    refine Expression.readNodes?_renderAll (by simpa using hne) ?_
    rw [List.forall_mem_map]
    exact fun n hn => (hsound.wellFormed i).node_name (ho.mem_iff.mp hn).2

/-- A node whose name and arguments are full of characters with a meaning. Among the arguments are
an empty one, a list, an option with an empty key, and an option without a value. -/
def quotedCalls : List Call :=
  let byPosition : Arguments :=
    ⟨[.text "a:b=c\\'[x];,d", .text "", .list [.text "[", .bool true]], ∅⟩
  [.source 0 "1:v", .apply ⟨0, .external ⟨"1:v", by decide⟩, .filterable⟩ "dr\\aw'"
    [((byPosition.set "k=:" (.text "x;y")).set "" (.text "'")).set "none" (.text "")]]

/-- What the node compiles to. -/
def quotedExpression : Expression :=
  ⟨"[1:v]dr\\\\aw\\'=a\\\\:b\\\\=c\\\\\\\\\\\\\\'\\[x\\]\\;\\,d::\\[|1" ++
      ":=\\\\\\':k\\\\=\\\\:=x\\;y[l1]",
    [⟨"l1", by decide⟩], 1⟩

/-- The node is read back. -/
theorem readNodes?_quoted :
    (start.run quotedCalls).Reachable ∧
    (start.run quotedCalls).Holds (.compile 0 [⟨0, .pad ⟨0, 0⟩, .filterable⟩] {}) ∧
    (start.run quotedCalls).answer (.compile 0 [⟨0, .pad ⟨0, 0⟩, .filterable⟩] {}) =
      .ok (.expression quotedExpression) ∧
    ∃ (chains : List Expression.Chain) (label : Endpoint → Label),
      quotedExpression.nodeCount = chains.length ∧
      Expression.Wired ((start.run quotedCalls).session.graph 0) [.pad ⟨0, 0⟩] chains
        quotedExpression label ∧
      Expression.readNodes? quotedExpression.text.toList =
        some (chains.map Expression.Chain.content) := by
  have hrun : (start.run quotedCalls).Reachable :=
    Reachable.run (c := start) .refl (by decide +kernel)
  have hholds : (start.run quotedCalls).Holds
      (.compile 0 [⟨0, .pad ⟨0, 0⟩, .filterable⟩] {}) := by
    decide +kernel
  have hanswer : (start.run quotedCalls).answer
      (.compile 0 [⟨0, .pad ⟨0, 0⟩, .filterable⟩] {}) = .ok (.expression quotedExpression) := by
    decide +kernel
  exact ⟨hrun, hholds, hanswer, readNodes?_of_compile hrun hholds rfl hanswer⟩

end Client

end MediaGraph
