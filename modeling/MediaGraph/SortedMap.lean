/-!
# Maps sorted by key

A finite map kept as the list of its entries in ascending order of the keys. Two maps that
answer every look-up alike are therefore the same map, whatever was inserted first, and an
enumeration never depends on the history of the map.

## Main definitions

* `MediaGraph.SortedMap` — the entries, with the proof that their keys ascend.
* `find?`, `insert`, `erase`, `ofList` — look-up, writing (the last write wins), removal, and the
  map of a list of entries.
-/

set_option autoImplicit false

namespace MediaGraph

/-- A finite map from `κ` to `β`, as its entries in strictly ascending order of the keys. -/
structure SortedMap (κ β : Type) [Ord κ] where
  /-- The entries, by ascending key. -/
  toList : List (κ × β)
  /-- Every key is below the keys that follow it. -/
  sorted : toList.Pairwise fun a b => compare a.1 b.1 = .lt

namespace SortedMap

variable {κ β : Type} [Ord κ]

/-- The map without entries. -/
def empty : SortedMap κ β := ⟨[], .nil⟩

instance : EmptyCollection (SortedMap κ β) := ⟨empty⟩

instance : Inhabited (SortedMap κ β) := ⟨empty⟩

/-- The number of entries. -/
def size (m : SortedMap κ β) : Nat := m.toList.length

/-- Whether there is no entry. -/
def isEmpty (m : SortedMap κ β) : Bool := m.toList.isEmpty

/-- The keys, ascending. -/
def keys (m : SortedMap κ β) : List κ := m.toList.map Prod.fst

/-- The value of the first entry with key `k`. -/
def findEntry? (k : κ) : List (κ × β) → Option β
  | [] => none
  | e :: rest => if compare k e.1 = .eq then some e.2 else findEntry? k rest

/-- The value stored under `k`, if any. -/
def find? (m : SortedMap κ β) (k : κ) : Option β := findEntry? k m.toList

/-- Whether `k` is a key. -/
def contains (m : SortedMap κ β) (k : κ) : Bool := (m.find? k).isSome

/-- The entries with `v` under `k`, at the place where the keys stay in order. -/
def insertEntry (k : κ) (v : β) : List (κ × β) → List (κ × β)
  | [] => [(k, v)]
  | e :: rest =>
    match compare k e.1 with
    | .lt => (k, v) :: e :: rest
    | .eq => (k, v) :: rest
    | .gt => e :: insertEntry k v rest

/-- An entry after an insertion is the new one or an old one. -/
theorem mem_of_mem_insertEntry {k : κ} {v : β} {es : List (κ × β)} {x : κ × β}
    (h : x ∈ insertEntry k v es) : x = (k, v) ∨ x ∈ es := by
  induction es with
  | nil => simpa [insertEntry] using h
  | cons e rest ih =>
    rw [insertEntry] at h
    split at h
    · simpa using h
    · rcases List.mem_cons.mp h with h | h
      · exact .inl h
      · exact .inr (List.mem_cons_of_mem _ h)
    · rcases List.mem_cons.mp h with h | h
      · exact .inr (h ▸ List.mem_cons_self)
      · exact (ih h).imp_right (List.mem_cons_of_mem _)

/-- Inserting keeps the keys in ascending order. -/
theorem sorted_insertEntry [Std.TransOrd κ] {k : κ} {v : β} {es : List (κ × β)}
    (h : es.Pairwise fun a b => compare a.1 b.1 = .lt) :
    (insertEntry k v es).Pairwise fun a b => compare a.1 b.1 = .lt := by
  induction es with
  | nil => simp [insertEntry]
  | cons e rest ih =>
    obtain ⟨head, tail⟩ := List.pairwise_cons.mp h
    rw [insertEntry]
    split
    next below =>
      refine List.pairwise_cons.mpr ⟨fun x hx => ?_, h⟩
      rcases List.mem_cons.mp hx with rfl | hx
      · exact below
      · exact Std.TransCmp.lt_trans below (head x hx)
    next same =>
      refine List.pairwise_cons.mpr ⟨fun x hx => ?_, tail⟩
      exact (Std.TransCmp.congr_left same).trans (head x hx)
    next above =>
      refine List.pairwise_cons.mpr ⟨fun x hx => ?_, ih tail⟩
      rcases mem_of_mem_insertEntry hx with rfl | hx
      · exact Std.OrientedCmp.lt_of_gt above
      · exact head x hx

/-- The map with `v` under `k`, in place of any earlier value. -/
def insert [Std.TransOrd κ] (m : SortedMap κ β) (k : κ) (v : β) : SortedMap κ β :=
  ⟨insertEntry k v m.toList, sorted_insertEntry m.sorted⟩

/-- The map without an entry for `k`. -/
def erase (m : SortedMap κ β) (k : κ) : SortedMap κ β :=
  ⟨m.toList.filter fun e => compare k e.1 ≠ .eq, m.sorted.filter _⟩

/-- The entries of `es` written one after the other over `m`. -/
def insertAll [Std.TransOrd κ] (m : SortedMap κ β) (es : List (κ × β)) : SortedMap κ β :=
  es.foldl (fun m e => m.insert e.1 e.2) m

/-- The map of a list of entries; of two with one key the later stands. -/
def ofList [Std.TransOrd κ] (es : List (κ × β)) : SortedMap κ β :=
  empty.insertAll es

end SortedMap

end MediaGraph
