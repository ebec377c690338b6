import Mathlib.Data.List.Induction
import Mathlib.Data.List.Nodup
import Mathlib.Data.List.Sort
import Mathlib.Tactic.Lemma
import Mathlib.Tactic.Use
import MediaGraph.SortedMap

/-!
# Look-up in sorted maps

A sorted map is known by its look-ups: an insertion changes the answer for one key, the entries
are exactly what look-ups find, and no key occurs twice.

## Main definitions

* `MediaGraph.SortedMap.lastUnder?` — the value of the last entry with a key.

## Main results

* `MediaGraph.SortedMap.find?_insert` — look-up after an insertion.
* `MediaGraph.SortedMap.find?_insertAll` — look-up after many: the last one under the key counts.
* `MediaGraph.SortedMap.find?_erase` — look-up after a removal.
* `MediaGraph.SortedMap.mem_toList_iff` — the entries are the answers of look-ups.
* `MediaGraph.SortedMap.ext_of_find?` — maps with the same look-ups are the same.
* `MediaGraph.SortedMap.keys_nodup`, `MediaGraph.SortedMap.size_insert` — keys are counted once.
* `MediaGraph.SortedMap.toList_ofList` — a list with ascending keys is the entries of its map.
-/

set_option autoImplicit false

namespace MediaGraph

namespace SortedMap

variable {κ β : Type} [Ord κ]

/-! ## Look-up after an insertion -/

@[simp] theorem find?_empty (k : κ) : (∅ : SortedMap κ β).find? k = none := rfl

@[simp] theorem toList_empty : (∅ : SortedMap κ β).toList = [] := rfl

section Insert

variable [Std.LawfulEqOrd κ]

/-- The inserted key answers with the inserted value. -/
lemma findEntry?_insertEntry_self (k : κ) (v : β) (es : List (κ × β)) :
    findEntry? k (insertEntry k v es) = some v := by
  induction es with
  | nil => simp [insertEntry, findEntry?]
  | cons e rest ih =>
    rw [insertEntry]
    split
    · simp [ findEntry?]
    · simp [ findEntry?]
    · next above => simp [ findEntry?, above, ih]

/-- Every other key answers as before. -/
lemma findEntry?_insertEntry_of_ne {k k' : κ} (h : k' ≠ k) (v : β) (es : List (κ × β)) :
    findEntry? k' (insertEntry k v es) = findEntry? k' es := by
  have hne : compare k' k ≠ .eq := by simpa using h
  induction es with
  | nil => simp [insertEntry, findEntry?, h]
  | cons e rest ih =>
    rw [insertEntry]
    split
    · simp [ findEntry?, h]
    · next same =>
      obtain rfl : k = e.1 := Std.LawfulEqOrd.eq_of_compare same
      simp [ findEntry?, h]
    · simp only [ findEntry?, ih]

variable [Std.TransOrd κ]

@[simp] theorem find?_insert_self (m : SortedMap κ β) (k : κ) (v : β) :
    (m.insert k v).find? k = some v :=
  findEntry?_insertEntry_self k v m.toList

theorem find?_insert_of_ne (m : SortedMap κ β) {k k' : κ} (h : k' ≠ k) (v : β) :
    (m.insert k v).find? k' = m.find? k' :=
  findEntry?_insertEntry_of_ne h v m.toList

/-- Look-up after an insertion: the new value under the new key, the old answer elsewhere. -/
theorem find?_insert [DecidableEq κ] (m : SortedMap κ β) (k k' : κ) (v : β) :
    (m.insert k v).find? k' = if k' = k then some v else m.find? k' := by
  by_cases h : k' = k
  · simp [h]
  · rw [find?_insert_of_ne m h, if_neg h]

/-- An insertion under a key that was free changes no other answer. -/
theorem find?_insert_of_some {m : SortedMap κ β} {k k' : κ} {v w : β}
    (hfree : m.find? k = none) (h : m.find? k' = some w) :
    (m.insert k v).find? k' = some w := by
  have hne : k' ≠ k := by
    rintro rfl
    simp [hfree] at h
  rw [find?_insert_of_ne m hne, h]

/-- The value of the last of some entries that has the key `k`. -/
def lastUnder? [DecidableEq κ] (k : κ) (es : List (κ × β)) : Option β :=
  (es.reverse.find? fun e => e.1 = k).map Prod.snd

/-- Look-up after many insertions: the last one under the key counts. -/
theorem find?_insertAll [DecidableEq κ] (m : SortedMap κ β) (es : List (κ × β)) (k : κ) :
    (m.insertAll es).find? k = (lastUnder? k es).or (m.find? k) := by
  induction es using List.reverseRecOn with
  | nil => rfl
  | append_singleton es e ih =>
    have hstep : m.insertAll (es ++ [e]) = (m.insertAll es).insert e.1 e.2 := by
      simp [insertAll]
    rw [hstep, find?_insert, ih]
    by_cases h : e.1 = k
    · simp [lastUnder?, h]
    · simp [lastUnder?, h, Ne.symm h]

end Insert

/-! ## Look-up after a removal -/

section Erase

variable [Std.LawfulEqOrd κ] [DecidableEq κ]

/-- Without the entries of one key, that key has no answer, and every other answers as before. -/
lemma findEntry?_filter_ne (k k' : κ) (es : List (κ × β)) :
    findEntry? k' (es.filter fun e => compare k e.1 ≠ .eq) =
      if k' = k then none else findEntry? k' es := by
  induction es with
  | nil => simp [ findEntry?]
  | cons e rest ih =>
    by_cases hremoved : compare k e.1 = .eq
    · obtain rfl : k = e.1 := Std.LawfulEqOrd.eq_of_compare hremoved
      rw [List.filter_cons_of_neg (by simp), ih, findEntry?]
      by_cases hkey : k' = e.1 <;> simp [hkey]
    · rw [List.filter_cons_of_pos (by simpa using hremoved), findEntry?, findEntry?, ih]
      by_cases hkey : k' = k
      · subst hkey
        simp [hremoved]
      · simp [hkey]

/-- Look-up after a removal: nothing under the removed key, the old answer elsewhere. -/
theorem find?_erase (m : SortedMap κ β) (k k' : κ) :
    (m.erase k).find? k' = if k' = k then none else m.find? k' :=
  findEntry?_filter_ne k k' m.toList

end Erase

/-! ## Entries and keys -/

/-- The keys ascend. -/
theorem keys_sorted (m : SortedMap κ β) : m.keys.Pairwise fun a b => compare a b = .lt :=
  List.pairwise_map.mpr m.sorted

@[simp] theorem length_keys (m : SortedMap κ β) : m.keys.length = m.size := by
  simp [keys, size]

/-- Inserting under a free key adds one entry. -/
lemma length_insertEntry {k : κ} (v : β) {es : List (κ × β)} (h : findEntry? k es = none) :
    (insertEntry k v es).length = es.length + 1 := by
  induction es with
  | nil => simp [insertEntry]
  | cons e rest ih =>
    rw [ findEntry?] at h
    split at h
    · simp at h
    · next other =>
      rw [insertEntry]
      split
      · simp
      · next same => exact absurd same other
      · simp [ih h]

/-- The number of entries grows by one with a new key. -/
theorem size_insert [Std.TransOrd κ] {m : SortedMap κ β} {k : κ} (v : β)
    (h : m.find? k = none) : (m.insert k v).size = m.size + 1 :=
  length_insertEntry v h

section Entries

variable [Std.LawfulEqOrd κ]

/-- An entry that a look-up finds is in the list. -/
lemma mem_of_findEntry? {k : κ} {v : β} {es : List (κ × β)} (h : findEntry? k es = some v) :
    (k, v) ∈ es := by
  induction es with
  | nil => simp [ findEntry?] at h
  | cons e rest ih =>
    rw [ findEntry?] at h
    split at h
    · next same =>
      obtain rfl : k = e.1 := Std.LawfulEqOrd.eq_of_compare same
      obtain rfl : e.2 = v := by simpa using h
      exact List.mem_cons_self
    · exact List.mem_cons_of_mem _ (ih h)

variable [Std.TransOrd κ]

/-- In a list with ascending keys every entry is found. -/
lemma findEntry?_of_mem {k : κ} {v : β} {es : List (κ × β)}
    (hs : es.Pairwise fun a b => compare a.1 b.1 = .lt) (h : (k, v) ∈ es) :
    findEntry? k es = some v := by
  induction es with
  | nil => simp at h
  | cons e rest ih =>
    obtain ⟨head, tail⟩ := List.pairwise_cons.mp hs
    rw [ findEntry?]
    rcases List.mem_cons.mp h with rfl | h
    · simp
    · have hlt : compare e.1 k = .lt := head (k, v) h
      have hgt : compare k e.1 = .gt := Std.OrientedCmp.gt_of_lt hlt
      simp [hgt, ih tail h]

/-- The entries are the answers of look-ups. -/
theorem mem_toList_iff (m : SortedMap κ β) {k : κ} {v : β} :
    (k, v) ∈ m.toList ↔ m.find? k = some v :=
  ⟨fun h => findEntry?_of_mem m.sorted h, fun h => mem_of_findEntry? h⟩

/-- The keys are what look-ups find something under. -/
theorem mem_keys_iff (m : SortedMap κ β) {k : κ} : k ∈ m.keys ↔ ∃ v, m.find? k = some v := by
  simp only [keys, List.mem_map, Prod.exists, exists_and_right, exists_eq_right, mem_toList_iff]

theorem contains_iff_mem_keys (m : SortedMap κ β) {k : κ} : m.contains k ↔ k ∈ m.keys := by
  rw [mem_keys_iff, contains, Option.isSome_iff_exists]

/-- Lists that ascend by some key are the same if they have the same elements. -/
theorem eq_of_sorted {α : Type} {key : α → κ} {l l' : List α}
    (h : l.Pairwise fun a b => compare (key a) (key b) = .lt)
    (h' : l'.Pairwise fun a b => compare (key a) (key b) = .lt)
    (hmem : ∀ a, a ∈ l ↔ a ∈ l') : l = l' := by
  have hirrefl : Std.Irrefl fun a b : α => compare (key a) (key b) = .lt := ⟨fun a => by simp⟩
  have hantisymm : Std.Antisymm fun a b : α => compare (key a) (key b) = .lt :=
    ⟨fun a b hab hba => by simp [Std.OrientedCmp.gt_of_lt hab] at hba⟩
  exact h.eq_of_mem_iff h' hmem

/-- Maps with the same look-ups are the same. -/
theorem ext_of_find? {m m' : SortedMap κ β} (h : ∀ k, m.find? k = m'.find? k) : m = m' := by
  have hlist : m.toList = m'.toList := eq_of_sorted m.sorted m'.sorted fun e => by
    rw [mem_toList_iff, mem_toList_iff, h]
  cases m
  cases m'
  simp_all

omit [Std.TransOrd κ] in
/-- No key occurs twice. -/
theorem keys_nodup (m : SortedMap κ β) : m.keys.Nodup := by
  refine m.keys_sorted.imp fun {a b} h => ?_
  rintro rfl
  simp at h

omit [Ord κ] [Std.LawfulEqOrd κ] [Std.TransOrd κ] in
/-- If no key occurs twice, the last entry with a key is the only one. -/
theorem lastUnder?_eq_some_iff [DecidableEq κ] {es : List (κ × β)}
    (hkeys : (es.map Prod.fst).Nodup) {k : κ} {v : β} :
    lastUnder? k es = some v ↔ (k, v) ∈ es := by
  have hfound : ∀ {e}, es.reverse.find? (fun e => e.1 = k) = some e → e ∈ es ∧ e.1 = k :=
    fun {e} h => ⟨List.mem_reverse.mp (List.mem_of_find?_eq_some h),
      by simpa using List.find?_some h⟩
  constructor
  · intro h
    obtain ⟨e, he, rfl⟩ := Option.map_eq_some_iff.mp h
    obtain ⟨hmem, rfl⟩ := hfound he
    exact hmem
  · intro hmem
    obtain ⟨e, he⟩ : ∃ e, es.reverse.find? (fun e => e.1 = k) = some e := by
      rw [← Option.isSome_iff_exists, List.find?_isSome]
      exact ⟨(k, v), List.mem_reverse.mpr hmem, by simp⟩
    obtain ⟨hmem', hkey⟩ := hfound he
    obtain rfl := List.inj_on_of_nodup_map hkeys hmem' hmem hkey
    exact Option.map_eq_some_iff.mpr ⟨_, he, rfl⟩

/-- The last entry of a map with a key is what a look-up finds. -/
theorem lastUnder?_toList [DecidableEq κ] (m : SortedMap κ β) (k : κ) :
    lastUnder? k m.toList = m.find? k :=
  Option.ext fun _ => (lastUnder?_eq_some_iff m.keys_nodup).trans m.mem_toList_iff

end Entries

/-! ## The map of an ascending list -/

section OfList

variable [Std.TransOrd κ]

/-- A key above all others goes to the end. -/
lemma insertEntry_of_above {k : κ} {v : β} {es : List (κ × β)}
    (h : ∀ e ∈ es, compare e.1 k = .lt) : insertEntry k v es = es ++ [(k, v)] := by
  induction es with
  | nil => rfl
  | cons e rest ih =>
    have hgt : compare k e.1 = .gt := Std.OrientedCmp.gt_of_lt (h e List.mem_cons_self)
    rw [insertEntry, hgt]
    simp [ih fun x hx => h x (List.mem_cons_of_mem _ hx)]

/-- Writing ascending entries above the keys of a map appends them. -/
lemma toList_insertAll {m : SortedMap κ β} {es : List (κ × β)}
    (h : (m.toList ++ es).Pairwise fun a b => compare a.1 b.1 = .lt) :
    (m.insertAll es).toList = m.toList ++ es := by
  induction es generalizing m with
  | nil => simp [insertAll]
  | cons e rest ih =>
    have hstep : (m.insert e.1 e.2).toList = m.toList ++ [e] := by
      refine insertEntry_of_above fun x hx => ?_
      exact (List.pairwise_append.mp h).2.2 x hx e List.mem_cons_self
    have hrest : ((m.insert e.1 e.2).toList ++ rest).Pairwise
        fun a b => compare a.1 b.1 = .lt := by
      rw [hstep]
      simpa using h
    have := ih hrest
    rw [hstep] at this
    simpa [insertAll] using this

/-- A list with ascending keys is the list of entries of its map. -/
theorem toList_ofList {es : List (κ × β)}
    (h : es.Pairwise fun a b => compare a.1 b.1 = .lt) : (ofList es).toList = es := by
  have hall : ((empty : SortedMap κ β).insertAll es).toList = [] ++ es :=
    toList_insertAll (by simpa [empty] using h)
  simpa [ofList] using hall

/-- A map is that of its entries. -/
theorem ofList_toList (m : SortedMap κ β) : ofList m.toList = m := by
  have htoList := toList_ofList m.sorted
  cases hm : ofList m.toList
  cases m
  simp_all

end OfList

end SortedMap

end MediaGraph
