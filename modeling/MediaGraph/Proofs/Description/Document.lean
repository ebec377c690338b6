import MediaGraph.Description.Document
import MediaGraph.Proofs.Json.Shapes

/-!
# Descriptions are read as they were written

Every part of a description is read by the shape that it was written in. A field that is absent is
written as the word for nothing, and no value of the field is; a label that is read satisfies the
rules because it was one before. A value of an argument has no tag, but the kinds of values differ
in the JSON that is written for them. Only floating-point numbers are left out: whether one comes
back is a matter of its digits.

## Main definitions

* `MediaGraph.Value.FloatFree`, `MediaGraph.Description.NodeEntry.FloatFree` — values and nodes
  without floating-point numbers.
* `MediaGraph.Description.NodeEntry.Fits` — the numbers of a node fit into their words.

## Main results

* `MediaGraph.Value.FloatFree.carries` — the tree of a value stands for the value.
* `MediaGraph.Description.parse_toJson` — the text of a description is read as the description.
-/

set_option autoImplicit false

namespace MediaGraph

open Json (Decoder)
open Json.Decoder (Carries)

/-! ## Values -/

namespace Value

/-- No floating-point number is a value or inside it. -/
inductive FloatFree : Value → Prop where
  /-- A truth value. -/
  | bool (b : Bool) : FloatFree (.bool b)
  /-- A whole number. -/
  | int (i : Int64) : FloatFree (.int i)
  /-- A text. -/
  | text (s : String) : FloatFree (.text s)
  /-- A list of such values. -/
  | list {items : List Value} (each : ∀ v ∈ items, FloatFree v) : FloatFree (.list items)

lemma floatFree_list_iff {items : List Value} :
    (list items).FloatFree ↔ ∀ v ∈ items, v.FloatFree :=
  ⟨fun | .list each => each, .list⟩

lemma toItems_eq_map (items : List Value) : toItems items = items.map toJson := by
  induction items with
  | nil => rfl
  | cons v tail ih => rw [toItems, ih, List.map_cons]

/-- Items that each stand for a value stand for the values in order. -/
lemma ofItems?_map {levels : Nat} {items : List Value}
    (h : ∀ v ∈ items, ofJson? levels v.toJson = some v) :
    ofItems? levels (items.map toJson) = some items := by
  induction items with
  | nil => simp [ofItems?]
  | cons v tail ih =>
    obtain ⟨hv, htail⟩ := List.forall_mem_cons.mp h
    rw [List.map_cons, ofItems?, hv, ih htail]
    rfl

lemma toInt_bounds (i : Int64) : Width.minSigned64 ≤ i.toInt ∧ i.toInt ≤ Width.maxSigned64 := by
  have hlow := i.le_toInt
  have hhigh := i.toInt_lt
  simp only [Width.minSigned64, Width.maxSigned64]
  omega

/-- A whole number with a sign is read as the number that was written, and as no floating-point
number. -/
lemma ofNumber_of_toInt (i : Int64) :
    (Json.number? (Numeral.ofInt i.toInt)).map ofNumber = some (.int i) := by
  obtain ⟨hlow, hhigh⟩ := toInt_bounds i
  have hword : Width.isSigned64 i.toInt = true := by simp [Width.isSigned64, hlow, hhigh]
  have hmax : Width.maxSigned64 ≤ Width.max64 := by decide
  rw [Json.number?_ofInt hlow (by omega)]
  simp [ofNumber, hword]

/-- **A value stands for itself** in a document, if there is no floating-point number in it.

**Proof sketch.** Induction on the value. The kinds of JSON that are written for the kinds of values
differ, and a whole number is not read as a floating-point number because 64 bits hold it. -/
theorem FloatFree.carries {v : Value} (h : v.FloatFree) : Carries decoder v.toJson v := by
  suffices hboth : v.toJson.Written ∧
      ∀ levels, v.toJson.depth ≤ levels → ofJson? levels v.toJson = some v by
    refine ⟨hboth.1, fun levels hlevels => ?_⟩
    rw [decoder, hboth.2 levels hlevels]
    rfl
  induction h with
  | bool b =>
    rw [toJson]
    exact ⟨.bool b, fun _ _ => by rw [ofJson?]⟩
  | int i =>
    rw [toJson]
    refine ⟨.int _, fun _ _ => ?_⟩
    rw [Json.ofInt, ofJson?, ofNumber_of_toInt]
  | text s =>
    rw [toJson]
    refine ⟨.text s, fun _ _ => ?_⟩
    rw [Json.ofText, ofJson?, Json.decodeBody_encodeBody, Option.map_some, String.ofList_toList]
  | @list items each ih =>
    rw [toJson, toItems_eq_map]
    refine ⟨.list (by simpa using fun v hv => (ih v hv).1), fun levels hlevels => ?_⟩
    obtain ⟨inner, rfl, hinner⟩ := Json.exists_of_depth_ofList hlevels
    have hitems := ofItems?_map fun v hv => (ih v hv).2 inner (hinner _ (List.mem_map_of_mem hv))
    rw [ofJson?, hitems]
    rfl

end Value

/-! ## Descriptions -/

namespace Description

/-- An output stands for itself. -/
lemma OutputEntry.carries {o : OutputEntry} (hpad : o.pad ≤ Width.max32) :
    Carries OutputEntry.decoder o.toJson o := by
  have hpads : Carries numberDecoder (.ofInt o.pad) o.pad :=
    Decoder.carries_natural hpad (Nat.le_trans hpad (by decide))
  have hlabel : Carries Decoder.text.optional (.ofOption .ofText o.label) o.label :=
    Decoder.carries_optional (fun s _ => Decoder.carries_text s) (fun _ _ => nofun)
  refine Decoder.carries_record ?_ fun inner hinner => ?_
  · simp [hpads.written, hlabel.written]
  · simp only [List.forall_mem_cons] at hinner
    obtain ⟨hle₁, hle₂, -⟩ := hinner
    simp only [List.map_cons, Decoder.readMembers_member, OutputEntry.Fields.read,
      hpads.reads inner hle₁, hlabel.reads inner hle₂]
    rfl

/-- The arguments of a node hold no floating-point number. -/
structure NodeEntry.FloatFree (n : NodeEntry) : Prop where
  /-- Those by position hold none. -/
  args : ∀ v ∈ n.args, v.FloatFree
  /-- The options hold none. -/
  options : ∀ e ∈ n.options.toList, e.2.FloatFree

/-- The numbers of a node fit into the words that hold them. -/
structure NodeEntry.Fits (n : NodeEntry) : Prop where
  /-- The number of inputs has 64 bits. -/
  arity : ∀ count ∈ n.arity, count ≤ Width.max64
  /-- The positions of pads have 32 bits. -/
  pads : ∀ o ∈ n.outputs, o.pad ≤ Width.max32

/-- A node stands for itself; in its fields stand texts, numbers, values and outputs. -/
lemma NodeEntry.carries {n : NodeEntry} (hfloat : n.FloatFree) (hfits : n.Fits) :
    Carries NodeEntry.decoder n.toJson n := by
  have hid : Carries Decoder.text (.ofText n.id) n.id := Decoder.carries_text n.id
  have hfilter : Carries Decoder.text (.ofText n.filter) n.filter :=
    Decoder.carries_text n.filter
  have hinputs : Carries Decoder.text.items (.ofList (n.inputs.map .ofText)) n.inputs :=
    Decoder.carries_items fun s _ => Decoder.carries_text s
  have harity : Carries (Decoder.natural Width.max64).optional
      (.ofOption (fun (count : Nat) => .ofInt count) n.arity) n.arity :=
    Decoder.carries_optional
      (fun count hcount => Decoder.carries_natural (hfits.arity count hcount)
        (hfits.arity count hcount))
      (fun _ _ => nofun)
  have hargs : Carries Value.decoder.items (.ofList (n.args.map Value.toJson)) n.args :=
    Decoder.carries_items fun v hv => (hfloat.args v hv).carries
  have hoptions : Carries Value.decoder.entries (Arguments.optionsToJson n.options) n.options :=
    Decoder.carries_entries fun e he => (hfloat.options e he).carries
  have houtputs : Carries OutputEntry.decoder.items
      (.ofList (n.outputs.map OutputEntry.toJson)) n.outputs :=
    Decoder.carries_items fun o ho => OutputEntry.carries (hfits.pads o ho)
  refine Decoder.carries_record ?_ fun inner hinner => ?_
  · simp [hid.written, hfilter.written, hinputs.written, harity.written, hargs.written,
      hoptions.written, houtputs.written]
  · simp only [List.forall_mem_cons] at hinner
    obtain ⟨hle₁, hle₂, hle₃, hle₄, hle₅, hle₆, hle₇, -⟩ := hinner
    simp only [List.map_cons, Decoder.readMembers_member, NodeEntry.Fields.read,
      hid.reads inner hle₁, hfilter.reads inner hle₂, hinputs.reads inner hle₃,
      harity.reads inner hle₄, hargs.reads inner hle₅, hoptions.reads inner hle₆,
      houtputs.reads inner hle₇]
    rfl

/-- A description stands for itself. -/
lemma carries {d : Description} (hfloat : ∀ n ∈ d.nodes, n.FloatFree)
    (hfits : ∀ n ∈ d.nodes, n.Fits) : Carries decoder d.toJson d := by
  have hsources : Carries Decoder.label.items (.ofList (d.sources.map Label.toJson))
      d.sources :=
    Decoder.carries_items fun l _ => Decoder.carries_label l
  have hnodes : Carries NodeEntry.decoder.items (.ofList (d.nodes.map NodeEntry.toJson))
      d.nodes :=
    Decoder.carries_items fun n hn => NodeEntry.carries (hfloat n hn) (hfits n hn)
  have houtputs : Carries Decoder.text.items (.ofList (d.outputs.map .ofText)) d.outputs :=
    Decoder.carries_items fun s _ => Decoder.carries_text s
  refine Decoder.carries_record ?_ fun inner hinner => ?_
  · simp [hsources.written, hnodes.written, houtputs.written]
  · simp only [List.forall_mem_cons] at hinner
    obtain ⟨hle₁, hle₂, hle₃, -⟩ := hinner
    simp only [List.map_cons, Decoder.readMembers_member, Fields.read,
      hsources.reads inner hle₁, hnodes.reads inner hle₂, houtputs.reads inner hle₃]
    rfl

/-- **The text of a description is read as the description**, if no argument holds a
floating-point number and the text has not too many levels of arrays and objects.

**Proof sketch.** The text is taken apart into the tree that was written, and the tree stands for
the description: each field of a record is read by the decoder for what was written there. -/
theorem parse_toJson {d : Description} (hfloat : ∀ n ∈ d.nodes, n.FloatFree)
    (hfits : ∀ n ∈ d.nodes, n.Fits) (hlevels : d.toJson.depth ≤ 127) :
    parse (Json.decodeUtf8 d.toJson.text.toUTF8.toList) = .ok d := by
  rw [parse, (carries hfloat hfits).decode hlevels]

/-- Texts with quotes, backslashes, control characters and characters beyond the first plane, lists
in lists, and fields that are absent. -/
def quoted : Description :=
  ⟨[⟨"0:v", Label.defect?_specifier⟩],
    [⟨"say \"hi\"\\", "drawtext", ["0:v"], some 2, [.int (-5), .list [.list [], .bool true]],
      ⟨[("", .text "a\n\x01\x7f"), ("é😀", .list [.text "/"])], by decide⟩,
      [⟨4294967295, some "out\t"⟩, ⟨0, none⟩]⟩,
    ⟨"", "null", [], none, [], ∅, []⟩],
    ["0:v", "\\u0041"]⟩

/-- All of it is read as it was written. -/
theorem parse_quoted :
    (∀ n ∈ quoted.nodes, n.FloatFree) ∧ (∀ n ∈ quoted.nodes, n.Fits) ∧
    quoted.toJson.depth ≤ 127 ∧
    parse (Json.decodeUtf8 quoted.toJson.text.toUTF8.toList) = .ok quoted := by
  have hfloat : ∀ n ∈ quoted.nodes, n.FloatFree := by
    intro n hn
    simp only [quoted, List.mem_cons, List.not_mem_nil, or_false] at hn
    obtain rfl | rfl := hn
    · constructor <;> simp [Value.floatFree_list_iff, Value.FloatFree.int, Value.FloatFree.text,
        Value.FloatFree.bool]
    · constructor <;> simp
  have hfits : ∀ n ∈ quoted.nodes, n.Fits := by
    intro n hn
    simp only [quoted, List.mem_cons, List.not_mem_nil, or_false] at hn
    obtain rfl | rfl := hn <;> constructor <;> simp [Width.max32, Width.max64]
  have hlevels : quoted.toJson.depth ≤ 127 := by decide
  exact ⟨hfloat, hfits, hlevels, parse_toJson hfloat hfits hlevels⟩

end Description

end MediaGraph
