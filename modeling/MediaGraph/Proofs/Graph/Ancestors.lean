import Mathlib.Data.List.Range
import Mathlib.Data.List.Perm.Subperm
import MediaGraph.Graph.Ancestors
import MediaGraph.Proofs.Graph.WellFormed

/-!
# The search for ancestors

In a well-formed graph the search finds exactly the nodes that can be reached from its seeds by
going from nodes to those they read from, and it never meets a node that the graph does not have.

## Main definitions

* `MediaGraph.Graph.Reads`, `MediaGraph.Graph.Behind` — one node reads from another, and a node is
  behind a list of nodes.
* `MediaGraph.Graph.Searching` — the invariant of the search.

## Main results

* `MediaGraph.Graph.visit_eq_ok` — the search ends with nothing left to be looked at.
* `MediaGraph.Graph.ancestors_eq_ok` — it finds exactly the nodes behind its seeds.
-/

set_option autoImplicit false

namespace MediaGraph

/-- A node reads from another if a pad of the other is among its inputs. -/
lemma Node.mem_feeders_iff {n : Node} {a : Nat} :
    a ∈ n.feeders ↔ ∃ p : Pad, .pad p ∈ n.inputs ∧ p.node = a := by
  simp only [feeders, List.mem_filterMap]
  constructor
  · rintro ⟨e, he, hnode⟩
    cases e with
    | external l => simp [Endpoint.node?] at hnode
    | pad p => exact ⟨p, he, by simpa [Endpoint.node?] using hnode⟩
  · rintro ⟨p, hp, rfl⟩
    exact ⟨.pad p, hp, rfl⟩

namespace Graph

variable {g : Graph} {seeds : List Nat}

/-! ## Nodes behind others -/

/-- Whether a node reads from another. -/
def Reads (g : Graph) (id feeder : Nat) : Prop :=
  ∃ n, g.node? id = some n ∧ feeder ∈ n.feeders

/-- Whether a node is one of a list or behind one of them, any number of nodes back. -/
def Behind (g : Graph) (seeds : List Nat) (id : Nat) : Prop :=
  ∃ s ∈ seeds, Relation.ReflTransGen g.Reads s id

namespace Behind

theorem of_mem {s : Nat} (h : s ∈ seeds) : g.Behind seeds s := ⟨s, h, .refl⟩

theorem tail {id feeder : Nat} (h : g.Behind seeds id) (hr : g.Reads id feeder) :
    g.Behind seeds feeder := by
  obtain ⟨s, hs, hpath⟩ := h
  exact ⟨s, hs, hpath.tail hr⟩

end Behind

/-- A node reads only from nodes before it. -/
lemma WellFormed.reads_lt (hg : g.WellFormed) {id feeder : Nat} (h : g.Reads id feeder) :
    feeder < id := by
  obtain ⟨n, hn, hfeeder⟩ := h
  obtain ⟨p, hp, rfl⟩ := Node.mem_feeders_iff.mp hfeeder
  exact (hg.reads_pad hn hp).1

/-- What is behind nodes of the graph are nodes of the graph. -/
lemma WellFormed.behind_lt (hg : g.WellFormed) (hseeds : ∀ s ∈ seeds, s < g.nodes.size)
    {id : Nat} (h : g.Behind seeds id) : id < g.nodes.size := by
  obtain ⟨s, hs, hpath⟩ := h
  induction hpath with
  | refl => exact hseeds s hs
  | tail _ hr ih => exact (hg.reads_lt hr).trans ih

/-! ## The search -/

/-- The invariant of a search with nodes still to be looked at and nodes found. -/
structure Searching (g : Graph) (seeds todo : List Nat) (found : SortedMap Nat Node) : Prop where
  /-- What is found are nodes of the graph. -/
  node : ∀ {id n}, found.find? id = some n → g.node? id = some n
  /-- Only nodes behind the seeds are looked at or found. -/
  behind : ∀ {id}, id ∈ todo ∨ found.contains id → g.Behind seeds id
  /-- No seed is forgotten. -/
  seed : ∀ {s}, s ∈ seeds → s ∈ todo ∨ found.contains s
  /-- Nothing that a found node reads from is forgotten. -/
  closed : ∀ {id n}, found.find? id = some n → ∀ {a}, a ∈ n.feeders → a ∈ todo ∨ found.contains a

namespace Searching

variable {todo : List Nat} {found : SortedMap Nat Node}

/-- The invariant holds at the start. -/
lemma start (g : Graph) (seeds : List Nat) : Searching g seeds seeds ∅ where
  node h := by simp at h
  behind h := .of_mem (by simpa [SortedMap.contains] using h)
  seed h := .inl h
  closed h := by simp at h

/-- Passing over nodes that are found keeps the invariant. -/
lemma dropWhile (h : Searching g seeds todo found) :
    Searching g seeds (todo.dropWhile found.contains) found := by
  have hkeep : ∀ {a}, a ∈ todo → a ∈ todo.dropWhile found.contains ∨ found.contains a := by
    intro a ha
    rw [← List.takeWhile_append_dropWhile (p := found.contains) (l := todo)] at ha
    rcases List.mem_append.mp ha with ha | ha
    · exact .inr (List.mem_takeWhile_imp ha)
    · exact .inl ha
  refine ⟨h.node, fun hid => h.behind ?_, fun hs => ?_, fun hn a ha => ?_⟩
  · exact hid.imp_left fun hid => (List.dropWhile_suffix _).subset hid
  · exact (h.seed hs).elim hkeep .inr
  · exact (h.closed hn ha).elim hkeep .inr

/-- Finding the next node keeps the invariant: what it reads from is looked at next. -/
lemma insert {id : Nat} {n : Node} {rest : List Nat} (h : Searching g seeds (id :: rest) found)
    (hn : g.node? id = some n) :
    Searching g seeds (n.feeders ++ rest) (found.insert id n) := by
  have hcontains : ∀ a, (found.insert id n).contains a ↔ a = id ∨ found.contains a := by
    intro a
    by_cases ha : a = id <;> simp [SortedMap.contains, SortedMap.find?_insert, ha]
  have hfirst : g.Behind seeds id := h.behind (.inl List.mem_cons_self)
  have hkeep : ∀ {a}, a ∈ id :: rest ∨ found.contains a →
      a ∈ n.feeders ++ rest ∨ (found.insert id n).contains a := by
    intro a ha
    rw [hcontains]
    simp only [List.mem_cons, List.mem_append] at ha ⊢
    tauto
  refine ⟨fun {a m} hm => ?_, fun {a} ha => ?_, fun hs => hkeep (h.seed hs),
    fun {a m} hm b hb => ?_⟩
  · by_cases ha : a = id
    · subst ha
      obtain rfl : n = m := by simpa using hm
      exact hn
    · exact h.node (by simpa [SortedMap.find?_insert, ha] using hm)
  · rw [hcontains, List.mem_append] at ha
    rcases ha with (ha | ha) | rfl | ha
    · exact hfirst.tail ⟨n, hn, ha⟩
    · exact h.behind (.inl (List.mem_cons_of_mem _ ha))
    · exact hfirst
    · exact h.behind (.inr ha)
  · by_cases ha : a = id
    · subst ha
      obtain rfl : n = m := by simpa using hm
      exact .inl (List.mem_append_left _ hb)
    · exact hkeep (h.closed (by simpa [SortedMap.find?_insert, ha] using hm) hb)

/-- While a node is still to be found, fewer nodes are found than the graph has. -/
lemma size_lt (h : Searching g seeds todo found) {id : Nat} (hid : id < g.nodes.size)
    (hnew : ¬ found.contains id) : found.size < g.nodes.size := by
  have hnodup : (id :: found.keys).Nodup := by
    refine List.nodup_cons.mpr ⟨?_, found.keys_nodup⟩
    rwa [← SortedMap.contains_iff_mem_keys]
  have hsub : id :: found.keys ⊆ List.range g.nodes.size := by
    intro k hk
    rw [List.mem_range]
    rcases List.mem_cons.mp hk with rfl | hk
    · exact hid
    · obtain ⟨n, hn⟩ := found.mem_keys_iff.mp hk
      exact (Array.getElem?_eq_some_iff.mp (h.node hn)).1
  have := (hnodup.subperm hsub).length_le
  simp only [List.length_cons, SortedMap.length_keys, List.length_range] at this
  omega

end Searching

/-- The search ends with nothing left to be looked at, if there are as many rounds as nodes to be
found.

**Proof sketch.** Induction on the rounds. A node that is not found yet is a node of the graph, so
one round is left for it, and it is found in that round. -/
theorem visit_eq_ok (hg : g.WellFormed) (hseeds : ∀ s ∈ seeds, s < g.nodes.size) {rounds : Nat}
    {todo : List Nat} {found : SortedMap Nat Node} (h : Searching g seeds todo found)
    (hrounds : g.nodes.size ≤ rounds + found.size) :
    ∃ m, g.visit rounds todo found = .ok m ∧ Searching g seeds [] m := by
  induction rounds generalizing todo found with
  | zero =>
    have hdrop := h.dropWhile
    unfold visit
    split
    · next hnil => exact ⟨found, rfl, hnil ▸ hdrop⟩
    · next id rest hcons =>
      rw [hcons] at hdrop
      have hid := hg.behind_lt hseeds (hdrop.behind (.inl List.mem_cons_self))
      have hnew : ¬ found.contains id := by
        simpa [hcons] using List.head_dropWhile_not found.contains (l := todo) (by simp [hcons])
      have := hdrop.size_lt hid hnew
      omega
  | succ rounds ih =>
    have hdrop := h.dropWhile
    unfold visit
    split
    · next hnil => exact ⟨found, rfl, hnil ▸ hdrop⟩
    · next id rest hcons =>
      rw [hcons] at hdrop
      have hid := hg.behind_lt hseeds (hdrop.behind (.inl List.mem_cons_self))
      have hnew : ¬ found.contains id := by
        simpa [hcons] using List.head_dropWhile_not found.contains (l := todo) (by simp [hcons])
      have hnode : g.node? id = some g.nodes[id] := Array.getElem?_eq_getElem hid
      rw [hnode]
      refine ih (hdrop.insert hnode) ?_
      have hfree : found.find? id = none := by simpa [SortedMap.contains] using hnew
      rw [SortedMap.size_insert _ hfree]
      omega

/-- The search finds exactly the nodes behind its seeds. -/
theorem ancestors_eq_ok (hg : g.WellFormed) (hseeds : ∀ s ∈ seeds, s < g.nodes.size) :
    ∃ found, g.ancestors seeds = .ok found ∧
      ∀ id n, found.find? id = some n ↔ g.Behind seeds id ∧ g.node? id = some n := by
  obtain ⟨found, hvisit, hend⟩ :=
    visit_eq_ok hg hseeds (Searching.start g seeds) (Nat.le_add_right g.nodes.size _)
  refine ⟨found, hvisit, fun id n => ⟨fun hfind => ⟨?_, hend.node hfind⟩, ?_⟩⟩
  · exact hend.behind (.inr (by simp [SortedMap.contains, hfind]))
  · rintro ⟨⟨s, hs, hpath⟩, hn⟩
    have hfound : found.contains id := by
      clear hn
      induction hpath with
      | refl => exact (hend.seed hs).resolve_left (by simp)
      | tail _ hr ih =>
        obtain ⟨m, hm, hfeeder⟩ := hr
        obtain ⟨m', hm'⟩ := Option.isSome_iff_exists.mp ih
        obtain rfl : m' = m := Option.some.inj ((hend.node hm').symm.trans hm)
        exact (hend.closed hm' hfeeder).resolve_left (by simp)
    obtain ⟨m, hm⟩ := Option.isSome_iff_exists.mp hfound
    obtain rfl : m = n := Option.some.inj ((hend.node hm).symm.trans hn)
    exact hm

end Graph

end MediaGraph
