import MediaGraph.Description.Assembly
import MediaGraph.Proofs.Graph.Construction

/-!
# Building a description only lets a graph grow

A description is built by the same few calls that callers have, so a graph it is built into only
grows, also when the description is refused half-way. What references can name is always known to
the graph, because it was answered by earlier calls.

## Main definitions

* `MediaGraph.Description.Scope.KnownTo` — a graph has all that references can name.

## Main results

* `MediaGraph.Description.build_extends` — building a description lets a graph grow, and the graph
  has the streams that it answers with.
-/

set_option autoImplicit false

namespace MediaGraph.Description

open Edit

variable {g g' : Graph}

/-- Whether a graph has all that references can name. -/
structure Scope.KnownTo (scope : Scope) (g : Graph) : Prop where
  /-- The sources are streams of the graph. -/
  sources : ∀ e ∈ scope.sources, g.HasStream e.2
  /-- The handles stand for nodes of the graph. -/
  nodes : ∀ e ∈ scope.nodes, g.HasHandle e.2

namespace Scope

variable {scope : Scope}

theorem KnownTo.within (h : scope.KnownTo g) (hin : g.Within g') : scope.KnownTo g' :=
  ⟨fun e he => hin.hasStream (h.sources e he), fun e he => hin.hasHandle (h.nodes e he)⟩

/-- A list answers a look-up with one of its entries. -/
private lemma mem_of_lookup {β : Type} {es : List (String × β)} {r : String} {b : β}
    (h : es.lookup r = some b) : (r, b) ∈ es := by
  obtain ⟨front, back, rfl, -⟩ := List.lookup_eq_some_iff.mp h
  simp

/-- A reference names a stream that is there or asks a node that is there. -/
lemma resolve_extends (hg : g.WellFormed) (hscope : scope.KnownTo g) (r : String) :
    Extends g (scope.resolve r) fun s g' => g'.HasStream s := by
  unfold resolve
  cases hsource : scope.sources.lookup r with
  | some s => exact extends_pure (hscope.sources _ (mem_of_lookup hsource))
  | none =>
    refine extends_check_bind fun reference _ => ?_
    cases hnode : scope.nodes.lookup reference.id with
    | some h => exact request_extends hg (hscope.nodes _ (mem_of_lookup hnode)).2
    | none => exact extends_throw

/-- References one after the other: what the first asked for is still there after the last. -/
lemma resolveAll_extends (hg : g.WellFormed) (hscope : scope.KnownTo g) (rs : List String) :
    Extends g (scope.resolveAll rs) fun ss g' => ∀ s ∈ ss, g'.HasStream s := by
  induction rs generalizing g with
  | nil => exact extends_pure (by simp)
  | cons r rest ih =>
    refine (resolve_extends hg hscope r).bind fun s g₁ h₁ hs => ?_
    refine (ih (h₁.wellFormed hg) (hscope.within h₁.within)).bind fun ss g₂ h₂ hss => ?_
    refine extends_pure fun t ht => ?_
    rcases List.mem_cons.mp ht with rfl | ht
    · exact h₂.within.hasStream hs
    · exact hss t ht

end Scope

/-- Asking for sources, one after the other. -/
lemma addSources_extends (ls : List Label) :
    Extends g (addSources ls) fun es g' => ∀ e ∈ es, g'.HasStream e.2 := by
  induction ls generalizing g with
  | nil => exact extends_pure (by simp)
  | cons l rest ih =>
    refine source_extends.bind fun s g₁ _ hs => ?_
    refine ih.bind fun es g₂ h₂ hes => ?_
    refine extends_pure fun e he => ?_
    rcases List.mem_cons.mp he with rfl | he
    · exact h₂.within.hasStream hs
    · exact hes e he

/-- Asking a node for pads, one after the other. -/
lemma addOutputs_extends (hg : g.WellFormed) {node : Nat} (hnode : node < g.nodes.size)
    (os : List OutputEntry) : Extends g (addOutputs node os) fun _ _ => True := by
  induction os generalizing g with
  | nil => exact extends_pure trivial
  | cons o rest ih =>
    refine (request_extends hg hnode).bind fun s g₁ h₁ _ => ?_
    exact ih (h₁.wellFormed hg) (hnode.trans_le h₁.within.size_le)

/-- Building one node. -/
lemma addNode_extends (hg : g.WellFormed) {scope : Scope} (hscope : scope.KnownTo g)
    (n : NodeEntry) : Extends g (addNode scope n) fun h g' => g'.HasHandle h := by
  refine (scope.resolveAll_extends hg hscope n.inputs).bind fun inputs g₁ h₁ hinputs => ?_
  refine (Edit.addNode_extends fun s hs _ => (hinputs s hs).2).bind fun h g₂ h₂ hh => ?_
  have hg₂ := h₂.wellFormed (h₁.wellFormed hg)
  refine (addOutputs_extends hg₂ hh.2 n.outputs).bind fun _ g₃ h₃ _ => ?_
  exact extends_pure (h₃.within.hasHandle hh)

/-- Building nodes one after the other. -/
lemma addNodes_extends (hg : g.WellFormed) {scope : Scope} (hscope : scope.KnownTo g)
    (ns : List NodeEntry) : Extends g (addNodes scope ns) fun scope' g' => scope'.KnownTo g' := by
  induction ns generalizing g scope with
  | nil => exact extends_pure hscope
  | cons n rest ih =>
    refine (addNode_extends hg hscope n).bind fun h g₁ h₁ hh => ?_
    have hscope₁ := hscope.within h₁.within
    refine ih (h₁.wellFormed hg) ⟨hscope₁.sources, fun e he => ?_⟩
    rcases List.mem_cons.mp he with rfl | he
    · exact hh
    · exact hscope₁.nodes e he

/-- Building a description lets a graph grow, also if it is refused half-way, and the graph has
the streams that it answers with. -/
theorem build_extends (hg : g.WellFormed) (d : Description) :
    Extends g d.build fun ss g' => ∀ s ∈ ss, g'.HasStream s := by
  refine extends_check_bind fun _ _ => ?_
  refine (addSources_extends d.sources).bind fun sources g₁ h₁ hsources => ?_
  have hg₁ := h₁.wellFormed hg
  have hscope : Scope.KnownTo ⟨sources, []⟩ g₁ := ⟨hsources, by simp⟩
  refine (addNodes_extends hg₁ hscope d.nodes).bind fun scope g₂ h₂ hscope₂ => ?_
  exact scope.resolveAll_extends (h₂.wellFormed hg₁) hscope₂ d.outputs

end MediaGraph.Description
