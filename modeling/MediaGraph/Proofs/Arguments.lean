import MediaGraph.Arguments
import MediaGraph.Proofs.SortedMap

/-!
# What arguments say

Arguments are known by their list by position and by what is found under every key. Of parts, the
first list by position stands that is not empty, and under every key the last value. Setting an
option and leaving one out are seen under its key only.

## Main definitions

* `MediaGraph.Arguments.leading`, `MediaGraph.Arguments.lastValue?` — what parts say by position and
  under a key.
* `MediaGraph.Arguments.Says` — arguments that say what some parts say together.
* `MediaGraph.Arguments.SaysExcept` — the same, but for one option.

## Main results

* `MediaGraph.Arguments.ext_of_get?` — arguments that say the same are the same.
* `MediaGraph.Arguments.positional_merge`, `MediaGraph.Arguments.get?_merge` — the merged arguments.
* `MediaGraph.Arguments.saysExcept_some_iff`, `MediaGraph.Arguments.saysExcept_none_iff` — the merged
  arguments with an option set, and with one left out.
-/

set_option autoImplicit false

namespace MediaGraph

namespace Arguments

/-! ## What parts say -/

/-- The positional arguments of the first part that has any; none if no part has. -/
def leading (parts : List Arguments) : List Value :=
  ((parts.find? fun a => !a.positional.isEmpty).map positional).getD []

/-- The value of an option in the last part that sets it. -/
def lastValue? (parts : List Arguments) (key : String) : Option Value :=
  parts.reverse.findSome? fun a => a.get? key

/-- Whether arguments say what some parts say together. -/
structure Says (a : Arguments) (parts : List Arguments) : Prop where
  /-- By position stand the arguments of the first part that has any. -/
  positional_eq : a.positional = leading parts
  /-- Every option has its value from the last part that sets it. -/
  get?_eq : ∀ key, a.get? key = lastValue? parts key

/-- Whether arguments say what some parts say together, but for one option. -/
structure SaysExcept (a : Arguments) (parts : List Arguments) (key : String) (v : Option Value) :
    Prop where
  /-- By position stand the arguments of the first part that has any. -/
  positional_eq : a.positional = leading parts
  /-- The option has this value, or it is not set. -/
  get?_self : a.get? key = v
  /-- Every other option has its value from the last part that sets it. -/
  get?_of_ne : ∀ other, other ≠ key → a.get? other = lastValue? parts other

variable {a b : Arguments}

/-! ## One part after the other -/

/-- Arguments are known by their positional list and what is found under every key. -/
theorem ext_of_get? (hpositional : a.positional = b.positional)
    (hget : ∀ key, a.get? key = b.get? key) : a = b := by
  cases a
  cases b
  obtain rfl := hpositional
  exact congrArg _ (SortedMap.ext_of_find? hget)

@[simp] lemma lastValue?_nil (key : String) : lastValue? [] key = none := rfl

/-- Parts behind the first one win. -/
@[simp] lemma lastValue?_cons (a : Arguments) (parts : List Arguments) (key : String) :
    lastValue? (a :: parts) key = (lastValue? parts key).or (a.get? key) := by
  rw [lastValue?, List.reverse_cons, List.findSome?_append]
  cases h : a.get? key <;> simp [h, lastValue?]

@[simp] lemma positional_empty : empty.positional = [] := rfl

@[simp] lemma get?_empty (key : String) : empty.get? key = none := rfl

@[simp] lemma get?_push (a : Arguments) (v : Value) (key : String) :
    (a.push v).get? key = a.get? key := rfl

@[simp] lemma positional_add (a part : Arguments) :
    (a.add part).positional =
      if a.positional.isEmpty then part.positional else a.positional := rfl

@[simp] lemma get?_add (a part : Arguments) (key : String) :
    (a.add part).get? key = (part.get? key).or (a.get? key) := by
  rw [get?, add, SortedMap.find?_insertAll, SortedMap.lastUnder?_toList]
  rfl

/-- Nothing is added to an empty part but what is added. -/
@[simp] lemma empty_add (a : Arguments) : empty.add a = a :=
  ext_of_get? (by simp) (by simp)

@[simp] lemma add_empty (a : Arguments) : a.add empty = a := by
  refine ext_of_get? ?_ (by simp)
  cases h : a.positional <;> simp [h]

/-- Parts are added in any grouping: of positional lists the first that is not empty stands, of
options the last. -/
lemma add_assoc (a b c : Arguments) : (a.add b).add c = a.add (b.add c) := by
  refine ext_of_get? ?_ (by simp [Option.or_assoc])
  cases h : a.positional <;> simp [h]

instance : Std.Associative add := ⟨add_assoc⟩

/-! ## Many parts -/

@[simp] lemma merge_nil : merge [] = empty := rfl

@[simp] lemma merge_singleton (a : Arguments) : merge [a] = a := empty_add a

/-- The parts of two lists are merged list by list. -/
lemma merge_append (xs ys : List Arguments) : merge (xs ++ ys) = (merge xs).add (merge ys) :=
  calc merge (xs ++ ys) = ys.foldl add (merge xs) := List.foldl_append
    _ = ys.foldl add ((merge xs).add empty) := by rw [add_empty]
    _ = (merge xs).add (merge ys) := List.foldl_assoc

lemma merge_cons (a : Arguments) (parts : List Arguments) :
    merge (a :: parts) = a.add (merge parts) := by
  rw [← List.singleton_append, merge_append, merge_singleton]

/-- The first positional list that is not empty stands. -/
theorem positional_merge (parts : List Arguments) : (merge parts).positional = leading parts := by
  induction parts with
  | nil => rfl
  | cons a rest ih =>
    rw [merge_cons, positional_add, ih]
    cases h : a.positional <;> simp [leading, h]

/-- Under a key the last value stands. -/
theorem get?_merge (parts : List Arguments) (key : String) :
    (merge parts).get? key = lastValue? parts key := by
  induction parts with
  | nil => rfl
  | cons a rest ih => rw [merge_cons, get?_add, ih, lastValue?_cons]

/-- Arguments that say what parts say are the merged ones. -/
lemma says_iff {parts : List Arguments} : a.Says parts ↔ a = merge parts := by
  constructor
  · rintro ⟨hpositional, hget⟩
    exact ext_of_get? (by rw [hpositional, positional_merge]) fun key => by
      rw [hget, get?_merge]
  · rintro rfl
    exact ⟨positional_merge parts, get?_merge parts⟩

/-! ## One option set or left out -/

@[simp] lemma get?_set (a : Arguments) (key other : String) (v : Value) :
    (a.set key v).get? other = if other = key then some v else a.get? other :=
  SortedMap.find?_insert a.options key other v

@[simp] lemma get?_take (a : Arguments) (key other : String) :
    (a.take key).2.get? other = if other = key then none else a.get? other :=
  SortedMap.find?_erase a.options key other

variable {parts : List Arguments} {key : String}

/-- What is said of every key leaves no choice. -/
lemma SaysExcept.unique {v : Option Value} (ha : a.SaysExcept parts key v)
    (hb : b.SaysExcept parts key v) : a = b := by
  refine ext_of_get? (ha.positional_eq.trans hb.positional_eq.symm) fun other => ?_
  by_cases h : other = key
  · rw [h, ha.get?_self, hb.get?_self]
  · rw [ha.get?_of_ne other h, hb.get?_of_ne other h]

/-- The merged arguments with an option set say what the parts say under every other key. -/
theorem saysExcept_some_iff {v : Value} :
    a.SaysExcept parts key (some v) ↔ a = (merge parts).set key v := by
  have hset : ((merge parts).set key v).SaysExcept parts key (some v) :=
    ⟨positional_merge parts, by simp, fun other h => by simp [h, get?_merge]⟩
  exact ⟨fun h => h.unique hset, fun h => h ▸ hset⟩

/-- The merged arguments without an option say what the parts say under every other key. -/
theorem saysExcept_none_iff :
    a.SaysExcept parts key none ↔ a = ((merge parts).take key).2 := by
  have htake : ((merge parts).take key).2.SaysExcept parts key none :=
    ⟨positional_merge parts, by simp, fun other h => by simp [h, get?_merge]⟩
  exact ⟨fun h => h.unique htake, fun h => h ▸ htake⟩

end Arguments

end MediaGraph
