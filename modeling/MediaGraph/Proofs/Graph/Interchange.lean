import MediaGraph.Proofs.Graph.Requests

/-!
# Requests that can be interchanged

A request looks at one pad at most and at one label, and it changes nothing else. So two requests
that are for different pads and under different labels have nothing to do with each other: each is
answered the same before and after the other, and the graph becomes the same in both orders. That a
request is refused makes no difference.

## Main definitions

* `MediaGraph.Parallel` — two runs are refused with the same error, or their results are related.
* `MediaGraph.Request.Independent` — two requests have no pad and no text of a label in common.
* `MediaGraph.Graph.MatchesOff` — two graphs are the same but for the pad and the label of a request.

## Main results

* `MediaGraph.Graph.MatchesOff.serve` — an independent request cannot tell such graphs apart.
* `MediaGraph.Graph.served_comm` — independent requests can be interchanged.
-/

set_option autoImplicit false

namespace MediaGraph

/-! ## Two runs side by side -/

/-- Two runs are both refused with the same error, or both have results, which are related. -/
inductive Parallel {α β : Type} (R : α → β → Prop) : Except Error α → Except Error β → Prop where
  /-- Both have results. -/
  | ok {a : α} {b : β} (related : R a b) : Parallel R (.ok a) (.ok b)
  /-- Both are refused. -/
  | error (e : Error) : Parallel R (.error e) (.error e)

namespace Parallel

variable {α β γ δ : Type} {R : α → β → Prop} {S : γ → δ → Prop}

/-- A run is side by side with itself. -/
lemma refl {R : α → α → Prop} {x : Except Error α} (h : ∀ a, x = .ok a → R a a) :
    Parallel R x x := by
  cases x with
  | ok a => exact .ok (h a rfl)
  | error e => exact .error e

/-- Runs go on side by side. -/
lemma bind {x : Except Error α} {y : Except Error β} {f : α → Except Error γ}
    {g : β → Except Error δ} (h : Parallel R x y) (hnext : ∀ a b, R a b → Parallel S (f a) (g b)) :
    Parallel S (x >>= f) (y >>= g) := by
  cases h with
  | ok related => exact hnext _ _ related
  | error e => exact .error e

end Parallel

/-! ## Requests with nothing in common -/

namespace Request

/-- The text of the label that is asked for. -/
def text? : Request → Option String
  | .source text => some text
  | .pad _ label => label

/-- Whether two requests are not for the same pad, and no text of a label occurs in both. -/
structure Independent (q r : Request) : Prop where
  /-- They are for different pads, if both are for pads. -/
  pads : ∀ p, q.pad? = some p → r.pad? ≠ some p
  /-- They are under different labels, if both are under labels. -/
  texts : ∀ t, q.text? = some t → r.text? ≠ some t

instance (q r : Request) : Decidable (q.Independent r) :=
  decidable_of_iff ((∀ p ∈ q.pad?, p ∉ r.pad?) ∧ ∀ t ∈ q.text?, t ∉ r.text?)
    ⟨fun h => ⟨h.1, h.2⟩, fun h => ⟨h.pads, h.texts⟩⟩

lemma Independent.symm {q r : Request} (h : q.Independent r) : r.Independent q where
  pads p hr hq := h.pads p hq hr
  texts t hr hq := h.texts t hq hr

end Request

namespace Graph

variable {g g' : Graph} {q r : Request}

/-- The answer to a request. -/
def answerTo (g : Graph) (q : Request) : Except Error Stream := (g.serve q).map Prod.fst

/-- Whether two graphs are the same but for the pad and the label of a request. -/
structure MatchesOff (g g' : Graph) (r : Request) : Prop where
  /-- They have the same number. -/
  id : g'.id = g.id
  /-- They have the same nodes. -/
  nodes : g'.nodes = g.nodes
  /-- They have the same pads and labels of pads, but for the pad of the request. -/
  pads : ∀ p, r.pad? ≠ some p → g'.pads.find? p = g.pads.find? p
  /-- Labels name the same, but for the label of the request. -/
  owners : ∀ l : Label, r.text? ≠ some l.text → g'.owners.find? l = g.owners.find? l

namespace MatchesOff

lemma refl (g : Graph) (r : Request) : g.MatchesOff g r :=
  ⟨rfl, rfl, fun _ _ => rfl, fun _ _ => rfl⟩

lemma symm (h : g.MatchesOff g' r) : g'.MatchesOff g r where
  id := h.id.symm
  nodes := h.nodes.symm
  pads p hp := (h.pads p hp).symm
  owners l hl := (h.owners l hl).symm

lemma trans {g'' : Graph} (h : g.MatchesOff g' r) (h' : g'.MatchesOff g'' r) :
    g.MatchesOff g'' r where
  id := h'.id.trans h.id
  nodes := h'.nodes.trans h.nodes
  pads p hp := (h'.pads p hp).trans (h.pads p hp)
  owners l hl := (h'.owners l hl).trans (h.owners l hl)

/-- Writing the same pad in both graphs keeps them matching. -/
lemma insertPad (h : g.MatchesOff g' r) (p : Pad) (label : Option Label) :
    MatchesOff { g with pads := g.pads.insert p label } { g' with pads := g'.pads.insert p label }
      r where
  id := h.id
  nodes := h.nodes
  pads p' hp' := by rw [SortedMap.find?_insert, SortedMap.find?_insert, h.pads p' hp']
  owners := h.owners

/-- Writing the same label in both graphs keeps them matching. -/
lemma insertOwner (h : g.MatchesOff g' r) (l : Label) (e : Endpoint) :
    MatchesOff { g with owners := g.owners.insert l e } { g' with owners := g'.owners.insert l e }
      r where
  id := h.id
  nodes := h.nodes
  pads := h.pads
  owners l' hl' := by rw [SortedMap.find?_insert, SortedMap.find?_insert, h.owners l' hl']

/-! ## Requests to graphs that match -/

lemma bind (h : g.MatchesOff g' r) {l : Label} (hl : r.text? ≠ some l.text) (e : Endpoint) :
    Parallel (fun g₁ g₁' => g₁.MatchesOff g₁' r) (g.bind l e) (g'.bind l e) := by
  unfold Graph.bind
  rw [h.owners l hl]
  cases g.owners.find? l with
  | none => exact .ok (h.insertOwner l e)
  | some existing =>
    by_cases he : existing = e
    · simpa only [he, if_true] using .ok h
    · simpa only [he, if_false] using .error _

lemma requestPad (h : g.MatchesOff g' r) {p : Pad} (hp : r.pad? ≠ some p) {label : Option Label}
    (hlabel : ∀ l, label = some l → r.text? ≠ some l.text) :
    Parallel (fun g₁ g₁' => g₁.MatchesOff g₁' r) (g.requestPad p label)
      (g'.requestPad p label) := by
  unfold Graph.requestPad
  rw [h.pads p hp]
  cases g.pads.find? p with
  | none =>
    cases label with
    | none => exact .ok (h.insertPad p none)
    | some l =>
      exact (h.bind (hlabel l rfl) _).bind fun g₁ g₁' h₁ => .ok (h₁.insertPad p (some l))
  | some existing =>
    cases label with
    | none => exact .ok h
    | some l =>
      by_cases he : existing = some l
      · simpa only [he, if_true] using .ok h
      · simpa only [he, if_false] using .error _

/-- **A request cannot tell apart two graphs that match off an independent one.** It is answered the
same in both, and they still match afterwards.

**Proof sketch.** The request looks only at its pad and its label, where the graphs are the same,
and what it writes it writes in both. -/
theorem serve (h : g.MatchesOff g' r) (hq : q.Independent r) :
    Parallel (fun x x' => x'.1 = x.1 ∧ x.2.MatchesOff x'.2 r) (g.serve q) (g'.serve q) := by
  cases q with
  | source text =>
    have hread : Parallel (fun l l' => l' = l ∧ l.text = text) (readLabel text) (readLabel text) :=
      .refl fun l hl => ⟨rfl, readLabel_eq_ok_iff.mp hl⟩
    refine hread.bind ?_
    rintro l _ ⟨rfl, rfl⟩
    refine (h.bind (hq.texts _ rfl) _).bind fun g₁ g₁' h₁ => .ok ⟨?_, h₁⟩
    rw [h₁.id]
  | pad p text =>
    simp only [Graph.serve, Graph.request, Option.getD_some]
    by_cases hlimit : padLimit ≤ p.index
    · simpa only [hlimit, if_true] using .error _
    simp only [hlimit, if_false]
    have hread : Parallel (fun label label' => label' = label ∧ text = label.map Label.text)
        (readOptionalLabel text) (readOptionalLabel text) :=
      .refl fun label hlabel => ⟨rfl, readOptionalLabel_eq_ok_iff.mp hlabel⟩
    refine hread.bind ?_
    rintro label _ ⟨rfl, rfl⟩
    refine (h.requestPad (hq.pads p rfl) ?_).bind fun g₁ g₁' h₁ => .ok ⟨?_, h₁⟩
    · rintro l rfl
      exact hq.texts _ rfl
    · rw [h₁.id]

/-- Graphs that match off a request are answered alike by an independent one, and go on to match. -/
lemma served (h : g.MatchesOff g' r) (hq : q.Independent r) :
    (g'.answerTo q = g.answerTo q) ∧ (g.served q).MatchesOff (g'.served q) r := by
  have hserve := h.serve hq
  unfold answerTo Graph.served
  cases hx : g.serve q <;> cases hx' : g'.serve q <;> rw [hx, hx'] at hserve
  · cases hserve
    exact ⟨rfl, h⟩
  · cases hserve
  · cases hserve
  · cases hserve with
    | ok related => exact ⟨congrArg Except.ok related.1, related.2⟩

end MatchesOff

/-! ## What a request leaves alone -/

lemma matchesOff_bind {l : Label} {e : Endpoint} (hl : r.text? = some l.text)
    (h : g.bind l e = .ok g') : g.MatchesOff g' r := by
  rcases bind_eq_ok h with ⟨-, rfl⟩ | ⟨-, rfl⟩
  · exact .refl g' r
  · refine ⟨rfl, rfl, fun _ _ => rfl, fun m hm => ?_⟩
    have hne : m ≠ l := by
      rintro rfl
      exact hm hl
    exact SortedMap.find?_insert_of_ne _ hne e

lemma matchesOff_insertPad {p : Pad} (hp : r.pad? = some p) (label : Option Label) :
    g.MatchesOff { g with pads := g.pads.insert p label } r where
  id := rfl
  nodes := rfl
  pads p' hp' := by
    have hne : p' ≠ p := by
      rintro rfl
      exact hp' hp
    exact SortedMap.find?_insert_of_ne _ hne label
  owners _ _ := rfl

/-- A request changes nothing but its pad and its label, and nothing at all if it is refused. -/
lemma matchesOff_served (g : Graph) (r : Request) : g.MatchesOff (g.served r) r := by
  unfold served
  split
  · next x hserve =>
    obtain ⟨s, g'⟩ := x
    cases r with
    | source text =>
      obtain ⟨l, hl, hbind, -⟩ := source_eq_ok hserve
      obtain rfl := readLabel_eq_ok_iff.mp hl
      exact matchesOff_bind rfl hbind
    | pad p text =>
      obtain ⟨-, label, rfl, hpad, -⟩ := serve_pad_eq_ok_iff.mp hserve
      rcases requestPad_eq_ok hpad with ⟨-, -, -, rfl⟩ | ⟨-, -, rfl⟩ | ⟨-, l, g₁, rfl, hbind, rfl⟩
      · exact .refl _ _
      · exact matchesOff_insertPad rfl none
      · exact (matchesOff_bind rfl hbind).trans (matchesOff_insertPad rfl (some l))
  · exact .refl g r

/-! ## Interchange -/

/-- Graphs that match off each of two independent requests are the same. -/
lemma eq_of_matchesOff (hq : g.MatchesOff g' q) (hr : g.MatchesOff g' r) (h : q.Independent r) :
    g' = g := by
  have hpads : g'.pads = g.pads := by
    refine SortedMap.ext_of_find? fun p => ?_
    by_cases hp : q.pad? = some p
    · exact hr.pads p (h.pads p hp)
    · exact hq.pads p hp
  have howners : g'.owners = g.owners := by
    refine SortedMap.ext_of_find? fun l => ?_
    by_cases hl : q.text? = some l.text
    · exact hr.owners l (h.texts _ hl)
    · exact hq.owners l hl
  have hid := hq.id
  have hnodes := hq.nodes
  cases g
  cases g'
  simp_all

/-- The answer to a request does not depend on an independent one that was made before. -/
theorem answerTo_served (h : q.Independent r) : (g.served r).answerTo q = g.answerTo q :=
  ((g.matchesOff_served r).served h).1

/-- **Independent requests can be interchanged.**

**Proof sketch.** Off the second request, the graph after both is the graph after the first one, in
whichever order they are made: the first cannot tell whether the second was made before, and the
second leaves the rest alone. The same holds with the two in each other's place. -/
theorem served_comm (g : Graph) (h : q.Independent r) :
    (g.served q).served r = (g.served r).served q := by
  have hoff : ∀ {q r : Request}, q.Independent r →
      ((g.served r).served q).MatchesOff ((g.served q).served r) r := fun {q r} h =>
    ((g.matchesOff_served r).served h).2.symm.trans ((g.served q).matchesOff_served r)
  exact eq_of_matchesOff (hoff h.symm).symm (hoff h) h

end Graph

end MediaGraph
