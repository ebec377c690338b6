import MediaGraph.Proofs.Json.Reading
import MediaGraph.Proofs.Json.Utf8
import MediaGraph.Proofs.LabelSupply
import MediaGraph.Proofs.SortedMap

/-!
# Shapes are read as they were written

A decoder is told how many levels of arrays and objects there may be, so what was written is read
where its levels are among them. Every shape takes back what was written in that shape if its parts
do: a list its items, a record its fields.

## Main definitions

* `MediaGraph.Json.depth` — the number of levels of a tree.
* `MediaGraph.Json.Decoder.Carries` — a tree stands for a value.

## Main results

* `carries_items`, `carries_entries`, `carries_record` — the shapes with parts.
* `MediaGraph.Json.Decoder.Carries.decode` — a document with the text of a tree stands for the
  value of the tree.
-/

set_option autoImplicit false

namespace MediaGraph.Json

/-! ## Levels -/

mutual

/-- The number of arrays and objects around the innermost value of a tree. -/
def depth : Json → Nat
  | .array items _ => depthItems items + 1
  | .object members _ => depthMembers members + 1
  | _ => 0

/-- The levels of the deepest item. -/
def depthItems : List Json → Nat
  | [] => 0
  | j :: rest => max j.depth (depthItems rest)

/-- The levels of the deepest member. -/
def depthMembers : List (List Symbol × Json) → Nat
  | [] => 0
  | (_, j) :: rest => max j.depth (depthMembers rest)

end

lemma depth_le_depthItems {items : List Json} {j : Json} (h : j ∈ items) :
    j.depth ≤ depthItems items := by
  induction items with
  | nil => simp at h
  | cons k tail ih =>
    rw [depthItems]
    rcases List.mem_cons.mp h with rfl | h
    · omega
    · have := ih h
      omega

lemma depth_le_depthMembers {members : List (List Symbol × Json)} {m : List Symbol × Json}
    (h : m ∈ members) : m.2.depth ≤ depthMembers members := by
  induction members with
  | nil => simp at h
  | cons k tail ih =>
    rw [depthMembers]
    rcases List.mem_cons.mp h with rfl | h
    · omega
    · have := ih h
      omega

/-- One level is spent on a list, and its items have the others. -/
lemma exists_of_depth_ofList {items : List Json} {levels : Nat}
    (h : (ofList items).depth ≤ levels) :
    ∃ inner, levels = inner + 1 ∧ ∀ j ∈ items, j.depth ≤ inner := by
  rw [ofList, depth] at h
  exact ⟨levels - 1, by omega, fun j hj => by have := depth_le_depthItems hj; omega⟩

/-- One level is spent on a record, and its fields have the others. -/
lemma exists_of_depth_ofFields {fields : List (String × Json)} {levels : Nat}
    (h : (ofFields fields).depth ≤ levels) :
    ∃ inner, levels = inner + 1 ∧ ∀ e ∈ fields, e.2.depth ≤ inner := by
  rw [ofFields_eq, depth] at h
  refine ⟨levels - 1, by omega, fun e he => ?_⟩
  have : (member e).2.depth ≤ _ := depth_le_depthMembers (List.mem_map_of_mem he)
  simp only [member] at this
  omega

/-! ## Shapes -/

/-- A text is read from the body that was written for it. -/
lemma bodyText_encodeBody (s : String) : bodyText (encodeBody s.toList) = .ok s := by
  rw [bodyText, decodeBody_encodeBody]
  simp [orMalformed, Except.map]

namespace Decoder

variable {α : Type} {d : Decoder α}

/-- A tree is one that is written, and the decoder takes a value from it wherever there may be as
many levels as it has. -/
structure Carries (d : Decoder α) (j : Json) (a : α) : Prop where
  /-- The tree is written. -/
  written : j.Written
  /-- The value is taken from it. -/
  reads : ∀ levels, j.depth ≤ levels → d levels j = .ok a

lemma carries_text (s : String) : Carries text (ofText s) s where
  written := .text s
  reads _ _ := bodyText_encodeBody s

lemma carries_natural {greatest n : Nat} (h : n ≤ greatest) (hword : n ≤ Width.max64) :
    Carries (natural greatest) (ofInt n) n where
  written := .int n
  reads levels _ := by
    have hnumber : number? (Numeral.ofInt n) = some (.whole n) :=
      number?_ofInt (by simp [Width.minSigned64]) (by omega)
    simp [natural, ofInt, hnumber, h]

lemma carries_label (l : Label) : Carries label (ofText l.text) l where
  written := .text l.text
  reads levels h := by
    have hlabel : Label.ofText l.text = .ok l := Label.ofText_eq_ok_iff.mpr rfl
    rw [label, (carries_text l.text).reads levels h]
    simp [hlabel, bind, Except.bind, pure, Except.pure]

/-- What may be absent is told from its values if no value is written as the word for nothing. -/
lemma carries_optional {tree : α → Json} {o : Option α} (h : ∀ a ∈ o, Carries d (tree a) a)
    (hnull : ∀ a ∈ o, tree a ≠ .null) : Carries d.optional (ofOption tree o) o := by
  cases o with
  | none => exact ⟨.null, fun _ _ => rfl⟩
  | some a =>
    have ha := h a rfl
    refine ⟨ha.written, fun levels hlevels => ?_⟩
    have hreads := ha.reads levels hlevels
    have hnot := hnull a rfl
    rw [ofOption, optional, hreads]
    · rfl
    · exact hnot

/-- Items that are each taken back are taken back in order. -/
lemma itemList_map {read : Json → Except Problem α} {tree : α → Json} {as : List α}
    (h : ∀ a ∈ as, read (tree a) = .ok a) : itemList read (as.map tree) = .ok as := by
  induction as with
  | nil => rfl
  | cons a tail ih =>
    obtain ⟨ha, htail⟩ := List.forall_mem_cons.mp h
    rw [List.map_cons, itemList, ha, ih htail]
    rfl

lemma carries_items {tree : α → Json} {as : List α} (h : ∀ a ∈ as, Carries d (tree a) a) :
    Carries d.items (ofList (as.map tree)) as where
  written := .list (by simpa using fun a ha => (h a ha).written)
  reads levels hlevels := by
    obtain ⟨inner, rfl, hinner⟩ := exists_of_depth_ofList hlevels
    have hitems : itemList (d inner) (as.map tree) = .ok as :=
      itemList_map fun a ha => (h a ha).reads inner (hinner _ (List.mem_map_of_mem ha))
    rw [ofList, items, hitems]
    rfl

/-- Members that are each taken back are taken back with their keys. -/
lemma entryList_map {read : Json → Except Problem α} {tree : α → Json} {es : List (String × α)}
    (h : ∀ e ∈ es, read (tree e.2) = .ok e.2) :
    entryList read ((es.map fun e => (e.1, tree e.2)).map member) = .ok es := by
  induction es with
  | nil => rfl
  | cons e tail ih =>
    obtain ⟨he, htail⟩ := List.forall_mem_cons.mp h
    have hmember : member (e.1, tree e.2) = (encodeBody e.1.toList, tree e.2) := rfl
    rw [List.map_cons, List.map_cons, hmember, entryList, bodyText_encodeBody, he, ih htail]
    rfl

lemma carries_entries {tree : α → Json} {m : SortedMap String α}
    (h : ∀ e ∈ m.toList, Carries d (tree e.2) e.2) :
    Carries d.entries (ofFields (m.toList.map fun e => (e.1, tree e.2))) m where
  written := .fields (by
    intro f hf
    obtain ⟨e, he, rfl⟩ := List.mem_map.mp hf
    exact (h e he).written)
  reads levels hlevels := by
    obtain ⟨inner, rfl, hinner⟩ := exists_of_depth_ofFields hlevels
    have hentries := entryList_map fun e he =>
      (h e he).reads inner (hinner _ (List.mem_map_of_mem he))
    rw [ofFields_eq, entries, hentries]
    simp [SortedMap.ofList_toList, bind, Except.bind, pure, Except.pure]

/-- A record is taken back if its fields are read one after the other. -/
lemma carries_record {φ : Type} {names : List String} {start : φ}
    {field : Nat → φ → String → Json → Except Problem φ} {finish : φ → Except Problem α}
    {fields : List (String × Json)} {a : α} (hwritten : ∀ e ∈ fields, e.2.Written)
    (h : ∀ inner, (∀ e ∈ fields, e.2.depth ≤ inner) →
      (readMembers (field inner) start (fields.map member)).bind finish = .ok a) :
    Carries (record names start field finish) (ofFields fields) a where
  written := .fields hwritten
  reads levels hlevels := by
    obtain ⟨inner, rfl, hinner⟩ := exists_of_depth_ofFields hlevels
    exact h inner hinner

/-- One field of a record is read, then the others. -/
@[simp] lemma readMembers_member {φ : Type} (field : φ → String → Json → Except Problem φ) (f : φ)
    (e : String × Json) (rest : List (List Symbol × Json)) :
    readMembers field f (member e :: rest) =
      (field f e.1 e.2).bind fun f => readMembers field f rest := by
  rw [member, readMembers, bodyText_encodeBody]
  rfl

/-- **A document with the text of a tree stands for the value of the tree**, if it has not too many
levels. -/
theorem Carries.decode {j : Json} {a : α} (h : Carries d j a) (hlevels : j.depth ≤ depthLimit) :
    Json.decode d (decodeUtf8 j.text.toUTF8.toList) = .ok a := by
  rw [decodeUtf8_toUTF8, Json.decode, h.written.read_text]
  simp [h.reads depthLimit hlevels, bind, Except.bind, pure, Except.pure]

end Decoder

end MediaGraph.Json
