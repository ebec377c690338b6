import Mathlib.Data.List.Induction
import MediaGraph.Proofs.Graph.Addition

/-!
# Requests in a row

Streams from outside and output pads can be asked for in any order and more than once. What a graph
has become in the end is told by the set of the requests alone. Whether all of them are granted
depends on their order in one point only: the first request for a pad settles its label.

## Main definitions

* `MediaGraph.Request` — what a graph can be asked for.
* `MediaGraph.Graph.Grants`, `MediaGraph.Graph.served` — a graph grants a request, and what it
  becomes by it; `GrantsAll` and `servedAll` are the same for requests in a row.
* `MediaGraph.Graph.Records` — what a graph that has served requests holds.
* `MediaGraph.Request.Compatible` — requests that can all be granted.

## Main results

* `MediaGraph.Graph.records_servedAll` — what requests in a row leave behind.
* `MediaGraph.Graph.grantsAll_empty_iff` — a new graph grants what is compatible.
-/

set_option autoImplicit false

namespace MediaGraph

/-- What a graph can be asked for. -/
inductive Request where
  /-- The stream from outside under a label. -/
  | source (text : String)
  /-- An output pad, under a label or not. -/
  | pad (p : Pad) (label : Option String)
  deriving DecidableEq

namespace Label

lemma text_injective {l m : Label} (h : l.text = m.text) : l = m := by
  cases l
  cases m
  cases h
  rfl

lemma map_text_eq_some_iff {label : Option Label} {l : Label} :
    label.map text = some l.text ↔ label = some l := by
  cases label with
  | none => simp
  | some m =>
    simp only [Option.map_some, Option.some.injEq]
    exact ⟨text_injective, congrArg text⟩

end Label

namespace Request

/-- The pad that is asked for. -/
def pad? : Request → Option Pad
  | .source _ => none
  | .pad p _ => some p

/-- The first request for a pad that is asked for. -/
lemma exists_first {qs : List Request} {p : Pad} {text : Option String} (h : .pad p text ∈ qs) :
    ∃ q, qs.find? (fun q => q.pad? = some p) = some q := by
  rw [← Option.isSome_iff_exists, List.find?_isSome]
  exact ⟨_, h, by simp [pad?]⟩

/-- Whether a request gives a label to an endpoint. -/
def Names (q : Request) (l : Label) (e : Endpoint) : Prop :=
  q = .source l.text ∧ e = .external l ∨ ∃ p, q = .pad p (some l.text) ∧ e = .pad p

lemma names_pad_iff {q : Request} {l : Label} {p : Pad} :
    q.Names l (.pad p) ↔ q = .pad p (some l.text) := by
  constructor
  · rintro (⟨-, ⟨⟩⟩ | ⟨q, rfl, ⟨⟩⟩)
    rfl
  · rintro rfl
    exact .inr ⟨p, rfl, rfl⟩

lemma pad_names_iff {p : Pad} {label : Option Label} {l : Label} {e : Endpoint} :
    (Request.pad p (label.map Label.text)).Names l e ↔ label = some l ∧ e = .pad p := by
  simp only [Names, reduceCtorEq, false_and, false_or, pad.injEq, Label.map_text_eq_some_iff]
  constructor
  · rintro ⟨_, ⟨rfl, hl⟩, rfl⟩
    exact ⟨hl, rfl⟩
  · rintro ⟨hl, rfl⟩
    exact ⟨p, ⟨rfl, hl⟩, rfl⟩

end Request

namespace Graph

/-! ## Single requests -/

/-- The answer to a request and the graph after it. -/
def serve (g : Graph) : Request → Except Error (Stream × Graph)
  | .source text => g.source text
  | .pad p label => g.request p.node label (some p.index)

/-- Whether a request is granted. -/
def Grants (g : Graph) (q : Request) : Prop := ∃ r, g.serve q = .ok r

/-- What a graph becomes by a request. -/
def served (g : Graph) (q : Request) : Graph :=
  match g.serve q with
  | .ok r => r.2
  | .error _ => g

variable {g g' : Graph}

lemma serve_of_grants {q : Request} (h : g.Grants q) : ∃ s, g.serve q = .ok (s, g.served q) := by
  obtain ⟨⟨s, g'⟩, hserve⟩ := h
  exact ⟨s, by rw [served, hserve]⟩

lemma readOptionalLabel_eq_ok_iff {text : Option String} {label : Option Label} :
    readOptionalLabel text = .ok label ↔ text = label.map Label.text := by
  cases text with
  | none => cases label <;> simp [readOptionalLabel]
  | some t =>
    rw [readOptionalLabel]
    cases hread : readLabel t with
    | ok l =>
      obtain rfl := readLabel_eq_ok_iff.mp hread
      rw [eq_comm (a := some l.text), Label.map_text_eq_some_iff]
      simp [Except.map, eq_comm]
    | error e =>
      have hno : ∀ l : Label, t ≠ l.text := by
        intro l h
        simp [readLabel_eq_ok_iff.mpr h.symm] at hread
      cases label <;> simp [Except.map, hno]

lemma serve_source_eq_ok {l : Label} {s : Stream} (h : g.serve (.source l.text) = .ok (s, g')) :
    g.bind l (.external l) = .ok g' ∧ s = ⟨g'.id, .external l, .filterable⟩ := by
  obtain ⟨m, hm, hbind, rfl⟩ := source_eq_ok h
  obtain rfl := Label.text_injective (readLabel_eq_ok_iff.mp hm)
  exact ⟨hbind, rfl⟩

lemma serve_pad_eq_ok_iff {p : Pad} {text : Option String} {s : Stream} :
    g.serve (.pad p text) = .ok (s, g') ↔
      p.index < 1024 ∧ ∃ label : Option Label, text = label.map Label.text ∧
        g.requestPad p label = .ok g' ∧ s = ⟨g'.id, .pad p, .filterable⟩ := by
  rw [serve, request_eq_ok_iff]
  simp only [readOptionalLabel_eq_ok_iff, Option.getD_some]

/-- A label can be given to an endpoint if it names no other. -/
lemma bind_isOk_iff {l : Label} {e : Endpoint} :
    (∃ g', g.bind l e = .ok g') ↔ ∀ e', g.owners.find? l = some e' → e' = e := by
  unfold bind
  cases g.owners.find? l with
  | none => simp
  | some existing => by_cases he : existing = e <;> simp [he]

lemma grants_source_iff {text : String} :
    g.Grants (.source text) ↔
      ∃ l : Label, l.text = text ∧ ∀ e, g.owners.find? l = some e → e = .external l := by
  simp only [← bind_isOk_iff]
  constructor
  · rintro ⟨⟨s, g'⟩, hserve⟩
    obtain ⟨l, hl, hbind, -⟩ := source_eq_ok hserve
    exact ⟨l, readLabel_eq_ok_iff.mp hl, g', hbind⟩
  · rintro ⟨l, hl, g', hbind⟩
    refine ⟨(⟨g'.id, .external l, .filterable⟩, g'), ?_⟩
    exact except_bind_eq_ok_iff.mpr
      ⟨l, readLabel_eq_ok_iff.mpr hl, except_bind_eq_ok_iff.mpr ⟨g', hbind, rfl⟩⟩

/-- A pad can be asked for without a label, under the label that it has, or, if it was not asked
for before, under a label that names nothing else. -/
lemma requestPad_isOk_iff {p : Pad} {label : Option Label} :
    (∃ g', g.requestPad p label = .ok g') ↔ ∀ l, label = some l →
      g.pads.find? p = some (some l) ∨
        g.pads.find? p = none ∧ ∀ e, g.owners.find? l = some e → e = .pad p := by
  unfold requestPad
  cases hfind : g.pads.find? p with
  | some existing =>
    cases label with
    | none => simp
    | some l => by_cases he : existing = some l <;> simp [he]
  | none =>
    cases label with
    | none => simp
    | some l =>
      simp only [except_bind_eq_ok_iff, Option.some.injEq, forall_eq', reduceCtorEq, false_or,
        true_and, ← bind_isOk_iff]
      constructor
      · rintro ⟨-, g₁, hbind, -⟩
        exact ⟨g₁, hbind⟩
      · rintro ⟨g₁, hbind⟩
        exact ⟨_, g₁, hbind, rfl⟩

lemma grants_pad_iff {p : Pad} {text : Option String} :
    g.Grants (.pad p text) ↔
      p.index < 1024 ∧ ∃ label : Option Label, text = label.map Label.text ∧
        ∀ l, label = some l → g.pads.find? p = some (some l) ∨
          g.pads.find? p = none ∧ ∀ e, g.owners.find? l = some e → e = .pad p := by
  simp only [← requestPad_isOk_iff]
  constructor
  · rintro ⟨⟨s, g'⟩, hserve⟩
    obtain ⟨hlimit, label, htext, hpad, -⟩ := serve_pad_eq_ok_iff.mp hserve
    exact ⟨hlimit, label, htext, g', hpad⟩
  · rintro ⟨hlimit, label, htext, g', hpad⟩
    exact ⟨_, serve_pad_eq_ok_iff.mpr ⟨hlimit, label, htext, hpad, rfl⟩⟩

lemma bind_rest {l : Label} {e : Endpoint} (h : g.bind l e = .ok g') :
    g'.id = g.id ∧ g'.nodes = g.nodes ∧ g'.pads = g.pads := by
  rcases bind_eq_ok h with ⟨-, rfl⟩ | ⟨-, rfl⟩ <;> exact ⟨rfl, rfl, rfl⟩

lemma requestPad_rest {p : Pad} {label : Option Label} (h : g.requestPad p label = .ok g') :
    g'.id = g.id ∧ g'.nodes = g.nodes := by
  rcases requestPad_eq_ok h with ⟨-, -, -, rfl⟩ | ⟨-, -, rfl⟩ | ⟨-, l, g₁, -, hbind, rfl⟩
  · exact ⟨rfl, rfl⟩
  · exact ⟨rfl, rfl⟩
  · obtain ⟨hid, hnodes, -⟩ := bind_rest hbind
    exact ⟨hid, hnodes⟩

/-- A request adds no node. -/
lemma served_rest (g : Graph) (q : Request) :
    (g.served q).id = g.id ∧ (g.served q).nodes = g.nodes := by
  unfold served
  split
  · next r hserve =>
    obtain ⟨s, g'⟩ := r
    cases q with
    | source text =>
      obtain ⟨l, -, hbind, -⟩ := source_eq_ok hserve
      obtain ⟨hid, hnodes, -⟩ := bind_rest hbind
      exact ⟨hid, hnodes⟩
    | pad p text =>
      obtain ⟨-, label, -, hpad, -⟩ := serve_pad_eq_ok_iff.mp hserve
      exact requestPad_rest hpad
  · exact ⟨rfl, rfl⟩

@[simp] lemma served_id (g : Graph) (q : Request) : (g.served q).id = g.id := (g.served_rest q).1

@[simp] lemma served_nodes (g : Graph) (q : Request) : (g.served q).nodes = g.nodes :=
  (g.served_rest q).2

/-! ## What requests leave behind -/

/-- Whether labels and pads name each other. -/
def Paired (g : Graph) : Prop :=
  ∀ l p, g.owners.find? l = some (.pad p) ↔ g.pads.find? p = some (some l)

/-- What a graph that has served some requests holds. -/
structure Records (g : Graph) (qs : List Request) (g' : Graph) : Prop where
  /-- The pads that were asked for. -/
  asked : ∀ p, (∃ label, g'.pads.find? p = some label) ↔
    (∃ label, g.pads.find? p = some label) ∨ ∃ text, .pad p text ∈ qs
  /-- The pads that have labels. -/
  labelled : ∀ p l, g'.pads.find? p = some (some l) ↔
    g.pads.find? p = some (some l) ∨ .pad p (some l.text) ∈ qs
  /-- A pad keeps its label, or stays without one. -/
  kept : ∀ p label, g.pads.find? p = some label → g'.pads.find? p = some label
  /-- The endpoints that labels name. -/
  named : ∀ l e, g'.owners.find? l = some e ↔
    g.owners.find? l = some e ∨ ∃ q ∈ qs, q.Names l e

namespace Records

variable {g₁ g₂ : Graph} {qs rs : List Request}

lemma nil (g : Graph) : g.Records [] g where
  asked := by simp
  labelled := by simp
  kept _ _ h := h
  named := by simp

lemma append (h : g.Records qs g₁) (h' : g₁.Records rs g₂) : g.Records (qs ++ rs) g₂ where
  asked p := by
    rw [h'.asked, h.asked, or_assoc, ← exists_or]
    simp only [List.mem_append]
  labelled p l := by
    rw [h'.labelled, h.labelled, or_assoc, List.mem_append]
  kept p label hp := h'.kept p label (h.kept p label hp)
  named l e := by
    rw [h'.named, h.named, or_assoc, ← exists_or]
    simp only [List.mem_append, or_and_right]

lemma paired (h : g.Records qs g') (hg : g.Paired) : g'.Paired := by
  intro l p
  rw [h.named, h.labelled, hg]
  simp only [Request.names_pad_iff, exists_eq_right]

end Records

lemma find?_owners_bind {l : Label} {e : Endpoint} (h : g.bind l e = .ok g') (m : Label)
    (f : Endpoint) :
    g'.owners.find? m = some f ↔ g.owners.find? m = some f ∨ m = l ∧ f = e := by
  rcases bind_eq_ok h with ⟨hl, rfl⟩ | ⟨hl, rfl⟩
  · constructor
    · exact .inl
    · rintro (hm | ⟨rfl, rfl⟩)
      · exact hm
      · exact hl
  · by_cases hm : m = l
    · subst hm
      simp [hl, eq_comm]
    · simp [SortedMap.find?_insert, hm]

lemma records_source {text : String} (h : g.Grants (.source text)) :
    g.Records [.source text] (g.served (.source text)) := by
  obtain ⟨s, hserve⟩ := serve_of_grants h
  obtain ⟨l, hl, -⟩ := source_eq_ok hserve
  obtain rfl := readLabel_eq_ok_iff.mp hl
  obtain ⟨hbind, -⟩ := serve_source_eq_ok hserve
  obtain ⟨-, -, hpads⟩ := bind_rest hbind
  constructor
  case asked => simp [hpads]
  case labelled => simp [hpads]
  case kept => simp [hpads]
  case named =>
    intro m f
    rw [find?_owners_bind hbind]
    refine or_congr_right ?_
    simp only [List.mem_singleton, exists_eq_left, Request.Names, Request.source.injEq,
      reduceCtorEq, false_and, exists_false, or_false]
    constructor
    · rintro ⟨rfl, rfl⟩
      exact ⟨rfl, rfl⟩
    · rintro ⟨htext, rfl⟩
      obtain rfl := Label.text_injective htext
      exact ⟨rfl, rfl⟩

/-- A pad that was asked for before stays as it is; else it is recorded with its label, which was
free, since it names no pad that was not asked for. -/
lemma requestPad_eq_ok_of_paired (hg : g.Paired) {p : Pad} {label : Option Label}
    (h : g.requestPad p label = .ok g') :
    (∃ existing, g.pads.find? p = some existing ∧ (∀ l, label = some l → existing = some l) ∧
      g' = g) ∨
    (g.pads.find? p = none ∧ (∀ l, label = some l → g.owners.find? l = none) ∧
      g' = g.withPad p label) := by
  rcases requestPad_eq_ok h with ⟨existing, hfind, hlabel, rfl⟩ | ⟨hfind, rfl, rfl⟩ |
    ⟨hfind, l, g₁, rfl, hbind, rfl⟩
  · refine .inl ⟨existing, hfind, ?_, rfl⟩
    rintro l rfl
    rcases hlabel with hnone | rfl
    · cases hnone
    · rfl
  · exact .inr ⟨hfind, by simp, rfl⟩
  · rcases bind_eq_ok hbind with ⟨hl, rfl⟩ | ⟨hl, rfl⟩
    · simp [(hg l p).mp hl] at hfind
    · refine .inr ⟨hfind, ?_, rfl⟩
      rintro m ⟨⟩
      exact hl

/-- Asking again leaves nothing behind. -/
lemma records_again (hg : g.Paired) {p : Pad} {label existing : Option Label}
    (hfind : g.pads.find? p = some existing) (hlabel : ∀ l, label = some l → existing = some l) :
    g.Records [.pad p (label.map Label.text)] g where
  asked q := by
    simp only [List.mem_singleton, Request.pad.injEq, iff_self_or]
    rintro ⟨-, rfl, -⟩
    exact ⟨existing, hfind⟩
  labelled q l := by
    simp only [List.mem_singleton, Request.pad.injEq, eq_comm (a := some l.text),
      Label.map_text_eq_some_iff, iff_self_or]
    rintro ⟨rfl, hl⟩
    rw [hfind, hlabel l hl]
  kept _ _ h := h
  named l e := by
    simp only [List.mem_singleton, exists_eq_left, Request.pad_names_iff, iff_self_or]
    rintro ⟨hl, rfl⟩
    rw [hg, hfind, hlabel l hl]

/-- Asking for the first time leaves the pad and its label behind. -/
lemma records_withPad {p : Pad} {label : Option Label} (hfind : g.pads.find? p = none)
    (hfree : ∀ l, label = some l → g.owners.find? l = none) :
    g.Records [.pad p (label.map Label.text)] (g.withPad p label) where
  asked q := by
    by_cases hq : q = p <;> simp [withPad, SortedMap.find?_insert, hq]
  labelled q l := by
    by_cases hq : q = p
    · subst hq
      simp only [withPad, SortedMap.find?_insert_self, Option.some.injEq, hfind, reduceCtorEq,
        List.mem_singleton, Request.pad.injEq, true_and, false_or, eq_comm (a := some l.text),
        Label.map_text_eq_some_iff]
    · simp [withPad, SortedMap.find?_insert, hq]
  kept _ _ h := SortedMap.find?_insert_of_some hfind h
  named l e := by
    simp only [List.mem_singleton, exists_eq_left, Request.pad_names_iff]
    cases label with
    | none => simp [withPad]
    | some m =>
      by_cases hl : l = m
      · subst hl
        simp [withPad, hfree l rfl, eq_comm]
      · simp [withPad, SortedMap.find?_insert, hl, Ne.symm hl]

lemma records_pad (hg : g.Paired) {p : Pad} {text : Option String} (h : g.Grants (.pad p text)) :
    g.Records [.pad p text] (g.served (.pad p text)) := by
  obtain ⟨s, hserve⟩ := serve_of_grants h
  obtain ⟨-, label, rfl, hpad, -⟩ := serve_pad_eq_ok_iff.mp hserve
  rcases requestPad_eq_ok_of_paired hg hpad with ⟨existing, hfind, hlabel, hsame⟩ |
    ⟨hfind, hfree, hnew⟩
  · rw [hsame]
    exact records_again hg hfind hlabel
  · rw [hnew]
    exact records_withPad hfind hfree

/-- A request that is granted leaves behind what it asked for. -/
lemma records_served (hg : g.Paired) {q : Request} (h : g.Grants q) :
    g.Records [q] (g.served q) := by
  cases q with
  | source text => exact records_source h
  | pad p text => exact records_pad hg h

/-! ## Requests in a row -/

/-- Whether requests are granted one after the other. -/
def GrantsAll (g : Graph) : List Request → Prop
  | [] => True
  | q :: rest => g.Grants q ∧ (g.served q).GrantsAll rest

/-- What a graph becomes by requests in a row. -/
def servedAll (g : Graph) (qs : List Request) : Graph := qs.foldl served g

@[simp] lemma servedAll_append (g : Graph) (qs rs : List Request) :
    g.servedAll (qs ++ rs) = (g.servedAll qs).servedAll rs :=
  List.foldl_append

@[simp] lemma servedAll_id (g : Graph) (qs : List Request) : (g.servedAll qs).id = g.id := by
  induction qs generalizing g with
  | nil => rfl
  | cons q rest ih => exact (ih _).trans (g.served_id q)

@[simp] lemma servedAll_nodes (g : Graph) (qs : List Request) :
    (g.servedAll qs).nodes = g.nodes := by
  induction qs generalizing g with
  | nil => rfl
  | cons q rest ih => exact (ih _).trans (g.served_nodes q)

@[simp] lemma grantsAll_append {qs rs : List Request} :
    g.GrantsAll (qs ++ rs) ↔ g.GrantsAll qs ∧ (g.servedAll qs).GrantsAll rs := by
  induction qs generalizing g with
  | nil => simp [GrantsAll, servedAll]
  | cons q rest ih => simp [GrantsAll, servedAll, ih, and_assoc]

/-- **What requests in a row leave behind** does not depend on their order. -/
theorem records_servedAll (hg : g.Paired) {qs : List Request} (h : g.GrantsAll qs) :
    g.Records qs (g.servedAll qs) := by
  induction qs generalizing g with
  | nil => exact .nil g
  | cons q rest ih =>
    have hq := records_served hg h.1
    exact hq.append (ih (hq.paired hg) h.2)

end Graph

/-! ## Requests to a new graph -/

namespace Request

/-- Whether requests can all be granted, in the order in which they stand. -/
structure Compatible (qs : List Request) : Prop where
  /-- Pads are below the limit. -/
  limit : ∀ p text, .pad p text ∈ qs → p.index < 1024
  /-- The text of a source is a label. -/
  source : ∀ t, .source t ∈ qs → Label.defect? t = none
  /-- A text that a pad is asked for under is a label. -/
  label : ∀ p t, .pad p (some t) ∈ qs → Label.defect? t = none
  /-- A label does not stand for a source and a pad. -/
  external : ∀ p t, .pad p (some t) ∈ qs → .source t ∉ qs
  /-- A label does not stand for two pads. -/
  unique : ∀ p p' t, .pad p (some t) ∈ qs → .pad p' (some t) ∈ qs → p' = p
  /-- A pad has the label, if it is asked for under one, from the first request on. -/
  first : ∀ p t, .pad p (some t) ∈ qs →
    qs.find? (fun q => q.pad? = some p) = some (.pad p (some t))

end Request

namespace Graph

lemma paired_empty (id : Nat) : (empty id).Paired := by
  intro l p
  simp [empty]

variable {id : Nat} {qs : List Request}

lemma exists_grants_of_mem {g : Graph} (h : g.GrantsAll qs) {q : Request} (hq : q ∈ qs) :
    ∃ g' : Graph, g'.Grants q := by
  obtain ⟨before, after, rfl⟩ := List.append_of_mem hq
  exact ⟨_, (grantsAll_append.mp h).2.1⟩

/-- If a pad has a label in the end, it has it from the first request on. -/
lemma find?_eq_of_grantsAll (h : (empty id).GrantsAll qs) {p : Pad} {l : Label}
    (hp : .pad p (some l.text) ∈ qs) :
    qs.find? (fun q => q.pad? = some p) = some (.pad p (some l.text)) := by
  obtain ⟨q, hq⟩ := Request.exists_first hp
  obtain ⟨hpad, before, after, rfl, hbefore⟩ := List.find?_eq_some_iff_append.mp hq
  have hno : ∀ text, .pad p text ∉ before := by
    intro text hmem
    simpa [Request.pad?] using hbefore _ hmem
  obtain ⟨text, rfl⟩ : ∃ text, q = .pad p text := by
    cases q with
    | source t => simp [Request.pad?] at hpad
    | pad p' text =>
      obtain rfl : p' = p := by simpa [Request.pad?] using hpad
      exact ⟨text, rfl⟩
  rw [← List.singleton_append, ← List.append_assoc, grantsAll_append] at h
  have hfirst := records_servedAll (paired_empty id) h.1
  have hrest := records_servedAll (hfirst.paired (paired_empty id)) h.2
  -- the label that the first request gave is the one that the pad has in the end
  have hend := ((hfirst.append hrest).labelled p l).mpr (.inr (by simpa using hp))
  obtain ⟨label, hlabel⟩ := (hfirst.asked p).mpr (.inr ⟨text, by simp⟩)
  rw [hrest.kept p label hlabel] at hend
  obtain rfl := Option.some.inj hend
  have hgiven := ((hfirst.labelled p l).mp hlabel).resolve_left (by simp [empty])
  rcases List.mem_append.mp hgiven with hmem | hmem
  · exact (hno _ hmem).elim
  · rw [hq, List.mem_singleton.mp hmem]

/-- What is granted is compatible. -/
lemma compatible_of_grantsAll (h : (empty id).GrantsAll qs) : Request.Compatible qs := by
  have hrecords := records_servedAll (paired_empty id) h
  have hsound : ∀ p t, .pad p (some t) ∈ qs → ∃ l : Label, l.text = t := by
    intro p t hp
    obtain ⟨g, hg⟩ := exists_grants_of_mem h hp
    obtain ⟨-, label, htext, -⟩ := grants_pad_iff.mp hg
    cases label with
    | none => cases htext
    | some l => exact ⟨l, (Option.some.inj htext).symm⟩
  have howner : ∀ (l : Label) p, .pad p (some l.text) ∈ qs →
      ((empty id).servedAll qs).owners.find? l = some (.pad p) := by
    intro l p hp
    exact (hrecords.named l _).mpr (.inr ⟨_, hp, Request.names_pad_iff.mpr rfl⟩)
  constructor
  case limit =>
    intro p text hp
    obtain ⟨g, hg⟩ := exists_grants_of_mem h hp
    exact (grants_pad_iff.mp hg).1
  case source =>
    intro t ht
    obtain ⟨g, hg⟩ := exists_grants_of_mem h ht
    obtain ⟨l, rfl, -⟩ := grants_source_iff.mp hg
    exact l.sound
  case label =>
    intro p t hp
    obtain ⟨l, rfl⟩ := hsound p t hp
    exact l.sound
  case external =>
    intro p t hp ht
    obtain ⟨l, rfl⟩ := hsound p t hp
    have hext := (hrecords.named l (.external l)).mpr (.inr ⟨_, ht, .inl ⟨rfl, rfl⟩⟩)
    simp [howner l p hp] at hext
  case unique =>
    intro p p' t hp hp'
    obtain ⟨l, rfl⟩ := hsound p t hp
    simpa [howner l p hp, eq_comm] using howner l p' hp'
  case first =>
    intro p t hp
    obtain ⟨l, rfl⟩ := hsound p t hp
    exact find?_eq_of_grantsAll h hp

end Graph

namespace Request.Compatible

variable {qs : List Request} {q : Request}

lemma of_append (h : Compatible (qs ++ [q])) : Compatible qs where
  limit p text hp := h.limit p text (List.mem_append_left _ hp)
  source t ht := h.source t (List.mem_append_left _ ht)
  label p t hp := h.label p t (List.mem_append_left _ hp)
  external p t hp ht := h.external p t (List.mem_append_left _ hp) (List.mem_append_left _ ht)
  unique p p' t hp hp' :=
    h.unique p p' t (List.mem_append_left _ hp) (List.mem_append_left _ hp')
  first p t hp := by
    have hfirst := h.first p t (List.mem_append_left _ hp)
    obtain ⟨q', hq'⟩ := exists_first hp
    simpa [List.find?_append, hq'] using hfirst

end Request.Compatible

namespace Graph

variable {id : Nat} {qs : List Request}

/-- The last of compatible requests is granted after the others. -/
lemma grants_last {q : Request} (h : Request.Compatible (qs ++ [q]))
    (hqs : (empty id).GrantsAll qs) : ((empty id).servedAll qs).Grants q := by
  have hrecords := records_servedAll (paired_empty id) hqs
  have howner : ∀ l e, ((empty id).servedAll qs).owners.find? l = some e →
      ∃ q ∈ qs, q.Names l e := by
    intro l e he
    simpa [empty] using (hrecords.named l e).mp he
  have hmem : ∀ q' ∈ qs, q' ∈ qs ++ [q] := fun q' hq' => List.mem_append_left _ hq'
  have hlast : q ∈ qs ++ [q] := by simp
  cases q with
  | source t =>
    refine grants_source_iff.mpr ⟨⟨t, h.source t hlast⟩, rfl, fun e he => ?_⟩
    obtain ⟨q', hq', ⟨-, he⟩ | ⟨p, rfl, -⟩⟩ := howner _ e he
    · exact he
    · exact (h.external p t (hmem _ hq') hlast).elim
  | pad p text =>
    refine grants_pad_iff.mpr ⟨h.limit p text hlast, ?_⟩
    cases text with
    | none => exact ⟨none, rfl, by simp⟩
    | some t =>
      refine ⟨some ⟨t, h.label p t hlast⟩, rfl, ?_⟩
      rintro l ⟨⟩
      by_cases hasked : ∃ text, .pad p text ∈ qs
      · -- the first request for the pad stands in front of the last one and is like it
        left
        obtain ⟨text, htext⟩ := hasked
        obtain ⟨q, hq⟩ := Request.exists_first htext
        have hfirst := h.first p t hlast
        obtain rfl : q = .pad p (some t) := by simpa [List.find?_append, hq] using hfirst
        exact (hrecords.labelled p _).mpr (.inr (List.mem_of_find?_eq_some hq))
      · right
        have hnone : ¬ ∃ label, ((empty id).servedAll qs).pads.find? p = some label := by
          rw [hrecords.asked]
          simpa [empty] using hasked
        refine ⟨by simpa [Option.eq_none_iff_forall_ne_some] using hnone, fun e he => ?_⟩
        obtain ⟨q', hq', ⟨rfl, -⟩ | ⟨p', rfl, rfl⟩⟩ := howner _ e he
        · exact (h.external p t hlast (hmem _ hq')).elim
        · rw [h.unique p p' t hlast (hmem _ hq')]

/-- **A new graph grants exactly what is compatible.** -/
theorem grantsAll_empty_iff : (empty id).GrantsAll qs ↔ Request.Compatible qs := by
  refine ⟨compatible_of_grantsAll, fun h => ?_⟩
  induction qs using List.reverseRecOn with
  | nil => trivial
  | append_singleton qs q ih =>
    have hqs := ih h.of_append
    exact grantsAll_append.mpr ⟨hqs, grants_last h hqs, trivial⟩

end Graph

end MediaGraph
