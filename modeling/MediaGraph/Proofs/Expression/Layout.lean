import Mathlib.Data.List.Forall2
import Mathlib.Tactic.Lemma
import MediaGraph.Expression.Reading
import MediaGraph.Expression.Rendering

/-!
# The layout of an expression

Nodes stand between semicolons. A node is the labels of its inputs in brackets, its filter with the
parameters, and the labels of its outputs in brackets. With escaping, every character that has a
meaning stands behind a backslash, once in a parameter and once more between the labels; without it
the texts stand as they are. This is said here apart from the way in which expressions are written,
and there is one text for it.

## Main definitions

* `MediaGraph.Expression.Escaped`, `MediaGraph.Expression.Spelled` — how characters are written.
* `MediaGraph.Expression.argumentParameters` — the parameters that arguments stand for.
* `MediaGraph.Expression.Parameter.LaidOut`, `MediaGraph.Expression.FilterLaidOut`,
  `MediaGraph.Expression.Chain.LaidOut` — the layout of a parameter, a filter and a node.
* `MediaGraph.Expression.LaidOut` — the layout of a whole text.

## Main results

* `MediaGraph.Expression.laidOut_iff` — the text that is written is the one that is laid out so.
-/

set_option autoImplicit false

namespace MediaGraph

namespace Expression

/-! ## The layout -/

/-- How a text is written with every character of `special` behind a backslash. -/
inductive Escaped (special : List Char) : List Char → List Char → Prop
  /-- Nothing is written as nothing. -/
  | nil : Escaped special [] []
  /-- A special character is written behind a backslash. -/
  | special {c : Char} {cs out : List Char} (hc : c ∈ special) (h : Escaped special cs out) :
      Escaped special (c :: cs) ('\\' :: c :: out)
  /-- Another character is written as it is. -/
  | plain {c : Char} {cs out : List Char} (hc : c ∉ special) (h : Escaped special cs out) :
      Escaped special (c :: cs) (c :: out)

/-- How a text is written, with escaping or as it is. -/
def Spelled (on : Bool) (special cs out : List Char) : Prop :=
  match on with
  | true => Escaped special cs out
  | false => out = cs

/-- The parameters that arguments stand for: those by position, then the options that have a value,
by ascending key. -/
def argumentParameters (a : Arguments) : List Parameter :=
  a.positional.map (fun v => .positional v.render.toList) ++
    a.options.toList.filterMap fun e =>
      if e.2.render.toList = [] then none else some (.keyed e.1.toList e.2.render.toList)

/-- The layout of a parameter: its value, and in front of the value of an option its key and an
equals sign. -/
inductive Parameter.LaidOut (on : Bool) : Parameter → List Char → Prop
  /-- An argument by position. -/
  | positional {text out : List Char} (h : Spelled on ['\\', '\'', '=', ':'] text out) :
      LaidOut on (.positional text) out
  /-- An option. -/
  | keyed {key value key' value' : List Char} (hkey : Spelled on ['\\', '\'', '=', ':'] key key')
      (hvalue : Spelled on ['\\', '\'', '=', ':'] value value') :
      LaidOut on (.keyed key value) (key' ++ '=' :: value')

/-- The layout of a filter: its name and, if there are any, an equals sign and its parameters between
colons; all of it is spelled once more. -/
def FilterLaidOut (on : Bool) (filter : String) (params : List Parameter) (cs : List Char) : Prop :=
  ∃ texts inner, List.Forall₂ (Parameter.LaidOut on) params texts ∧
    (params = [] → inner = filter.toList) ∧
    (params ≠ [] → inner = filter.toList ++ '=' :: List.intercalate [':'] texts) ∧
    Spelled on ['\\', '\'', '[', ']', ',', ';'] inner cs

/-- The layout of a node: the labels of its inputs in brackets, its filter, and the labels of its
outputs in brackets. -/
def Chain.LaidOut (on : Bool) (c : Chain) (cs : List Char) : Prop :=
  ∃ inner, FilterLaidOut on c.node.filter (argumentParameters c.node.arguments) inner ∧
    cs = (c.inputs.flatMap fun l => ['['] ++ l.text.toList ++ [']']) ++ inner ++
      (c.outputs.flatMap fun l => ['['] ++ l.text.toList ++ [']'])

/-- The layout of a text: its nodes between semicolons. -/
def LaidOut (on : Bool) (chains : List Chain) (text : String) : Prop :=
  ∃ texts, List.Forall₂ (Chain.LaidOut on) chains texts ∧
    text.toList = List.intercalate [';'] texts

/-! ## What is written is laid out, and nothing else is -/

/-- If each element is related to one other only, so is a list. -/
lemma forall₂_iff_eq_map {α β : Type} {r : α → β → Prop} {f : α → β}
    (h : ∀ a b, r a b ↔ b = f a) {l : List α} {l' : List β} :
    List.Forall₂ r l l' ↔ l' = l.map f := by
  obtain rfl : r = fun a b => f a = b := by
    funext a b
    exact propext ((h a b).trans eq_comm)
  rw [← List.forall₂_map_left_iff, List.forall₂_eq_eq_eq, eq_comm]

lemma escaped_iff {special cs out : List Char} :
    Escaped special cs out ↔ out = escape special cs := by
  constructor
  · intro h
    induction h with
    | nil => rfl
    | special hc _ ih => simp [ih, escape, hc]
    | plain hc _ ih => simp [ih, escape, hc]
  · rintro rfl
    induction cs with
    | nil => exact .nil
    | cons c rest ih =>
      by_cases hc : c ∈ special
      · simpa [escape, hc] using Escaped.special hc ih
      · simpa [escape, hc] using Escaped.plain hc ih

lemma spelled_iff {on : Bool} {special cs out : List Char} :
    Spelled on special cs out ↔ out = escapeIf on special cs := by
  cases on
  · rfl
  · exact escaped_iff

namespace Parameter

/-- How a parameter is written. -/
def write (on : Bool) : Parameter → List Char
  | .positional text => escapeIf on argumentSpecial text
  | .keyed key value => escapeIf on argumentSpecial key ++ '=' :: escapeIf on argumentSpecial value

lemma laidOut_iff (p : Parameter) {on : Bool} {cs : List Char} :
    p.LaidOut on cs ↔ cs = p.write on := by
  constructor
  · rintro (h | ⟨hkey, hvalue⟩)
    · exact spelled_iff.mp h
    · rw [spelled_iff.mp hkey, spelled_iff.mp hvalue]
      rfl
  · rintro rfl
    cases p with
    | positional text => exact .positional (spelled_iff.mpr rfl)
    | keyed key value => exact .keyed (spelled_iff.mpr rfl) (spelled_iff.mpr rfl)

end Parameter

/-- Arguments are written as the parameters that they stand for. -/
lemma parameters_eq_map (on : Bool) (a : Arguments) :
    parameters on a = (argumentParameters a).map (Parameter.write on) := by
  rw [parameters, argumentParameters, List.map_append, List.map_map, List.map_filterMap]
  congr 1
  refine List.filterMap_congr fun e _ => ?_
  rw [option?]
  by_cases hnone : e.2.render.toList = [] <;> simp [hnone, Parameter.write]

/-- The text of a filter with parameters, before it is spelled once more. -/
def filterText (on : Bool) (filter : String) (params : List Parameter) : List Char :=
  if params = [] then filter.toList
  else filter.toList ++ '=' :: List.intercalate [':'] (params.map (Parameter.write on))

/-- Filters are written with the parameters that their arguments stand for. -/
lemma specification_eq (on : Bool) (filter : String) (a : Arguments) :
    specification on filter a =
      escapeIf on graphSpecial (filterText on filter (argumentParameters a)) := by
  simp only [specification, filterText, parameters_eq_map, List.map_eq_nil_iff]

lemma filterLaidOut_iff {on : Bool} {filter : String} {a : Arguments} {cs : List Char} :
    FilterLaidOut on filter (argumentParameters a) cs ↔ cs = specification on filter a := by
  have hparams : ∀ texts, List.Forall₂ (Parameter.LaidOut on) (argumentParameters a) texts ↔
      texts = (argumentParameters a).map (Parameter.write on) :=
    fun _ => forall₂_iff_eq_map fun p _ => p.laidOut_iff
  simp only [specification_eq, filterText, graphSpecial, FilterLaidOut, hparams, spelled_iff]
  by_cases hnil : argumentParameters a = [] <;> simp [hnil]

lemma Chain.laidOut_iff (c : Chain) {on : Bool} {cs : List Char} :
    c.LaidOut on cs ↔ cs = c.render on := by
  simp only [Chain.LaidOut, filterLaidOut_iff, exists_eq_left]
  rfl

/-- **The text that is written is the one that is laid out so**, with escaping and without it. -/
theorem laidOut_iff {on : Bool} {chains : List Chain} {text : String} :
    LaidOut on chains text ↔ text = String.ofList (renderAll on chains) := by
  have hchains : ∀ texts, List.Forall₂ (Chain.LaidOut on) chains texts ↔
      texts = chains.map (Chain.render on) :=
    fun _ => forall₂_iff_eq_map fun c _ => c.laidOut_iff
  rw [← String.toList_inj, String.toList_ofList, renderAll]
  simp only [LaidOut, hchains, exists_eq_left]

end Expression

end MediaGraph
