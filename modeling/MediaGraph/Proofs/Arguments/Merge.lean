import MediaGraph.Proofs.Arguments
import MediaGraph.Proofs.Session

/-!
# Arguments in parts

Arguments can be given in parts. The positional arguments are those of the first part that has any,
an option has the value from the last part that sets it. So parts can be merged in groups and empty
parts left out, and only these values matter: neither the order in which options were set nor how
they were spread over the parts can be seen in an expression.

## Main definitions

* `MediaGraph.Arguments.Agree` — parts that say the same.
* `MediaGraph.Arguments.setAll` — options set one after the other.
* `MediaGraph.Call.withParts` — a call with other parts of arguments.

## Main results

* `MediaGraph.Arguments.merge_eq_iff` — parts give the same arguments exactly if they say the same.
* `MediaGraph.Arguments.setAll_of_perm` — options under different keys can be set in any order.
* `MediaGraph.Arguments.merge_laws` — all laws of merging together.
-/

set_option autoImplicit false

namespace MediaGraph

open Expression (escapeIf argumentSpecial option? parameters specification)

namespace Arguments

/-- Whether two lists of parts say the same by position and under every key. -/
structure Agree (xs ys : List Arguments) : Prop where
  /-- The first positional arguments are the same. -/
  leading_eq : leading xs = leading ys
  /-- The last value of every option is the same. -/
  lastValue?_eq : ∀ key, lastValue? xs key = lastValue? ys key

/-- The arguments with the options of a list set one after the other. -/
def setAll (a : Arguments) (settings : List (String × Value)) : Arguments :=
  settings.foldl (fun a e => a.set e.1 e.2) a

variable {a : Arguments}

/-! ## Parts that say the same -/

/-- The keys of merged arguments are those of their parts. -/
lemma mem_keys_merge {parts : List Arguments} {key : String} :
    key ∈ (merge parts).options.keys ↔ ∃ a ∈ parts, key ∈ a.options.keys := by
  have hkeys : ∀ a : Arguments, key ∈ a.options.keys ↔ (a.get? key).isSome := fun a => by
    rw [SortedMap.mem_keys_iff, Option.isSome_iff_exists]
    rfl
  simp only [hkeys, get?_merge, lastValue?, List.findSome?_isSome_iff, List.mem_reverse]

/-- An empty part changes nothing, wherever it stands. -/
lemma merge_insert_empty (h : a.isEmpty) (xs ys : List Arguments) :
    merge (xs ++ a :: ys) = merge (xs ++ ys) := by
  obtain rfl : a = empty := by
    obtain ⟨hpositional, hoptions⟩ : a.positional = [] ∧ a.options.toList = [] := by
      simpa [isEmpty, SortedMap.isEmpty] using h
    refine ext_of_get? hpositional fun key => ?_
    rw [get?, SortedMap.find?, hoptions]
    rfl
  rw [merge_append, merge_cons, empty_add, ← merge_append]

/-- Parts give the same arguments exactly if they say the same. -/
theorem merge_eq_iff {xs ys : List Arguments} : merge xs = merge ys ↔ Agree xs ys := by
  constructor
  · intro h
    refine ⟨?_, fun key => ?_⟩
    · rw [← positional_merge, ← positional_merge, h]
    · rw [← get?_merge, ← get?_merge, h]
  · intro h
    refine ext_of_get? ?_ fun key => ?_
    · rw [positional_merge, positional_merge, h.leading_eq]
    · rw [get?_merge, get?_merge, h.lastValue?_eq]

/-! ## Options set one after the other -/

@[simp] lemma positional_setAll (a : Arguments) (settings : List (String × Value)) :
    (a.setAll settings).positional = a.positional := by
  induction settings generalizing a with
  | nil => rfl
  | cons e rest ih => exact ih (a.set e.1 e.2)

/-- Under a key the last value that was set stands. -/
@[simp] lemma get?_setAll (a : Arguments) (settings : List (String × Value)) (key : String) :
    (a.setAll settings).get? key = (SortedMap.lastUnder? key settings).or (a.get? key) := by
  have hoptions : (a.setAll settings).options = a.options.insertAll settings := by
    induction settings generalizing a with
    | nil => rfl
    | cons e rest ih => exact ih (a.set e.1 e.2)
  rw [get?, hoptions, SortedMap.find?_insertAll, get?]

/-- Only the last value set under a key counts. -/
theorem setAll_congr {settings settings' : List (String × Value)}
    (h : ∀ key, SortedMap.lastUnder? key settings = SortedMap.lastUnder? key settings') :
    a.setAll settings = a.setAll settings' :=
  ext_of_get? (by simp) (by simp [h])

/-- Options under different keys can be set in any order. -/
theorem setAll_of_perm {settings settings' : List (String × Value)}
    (hperm : settings.Perm settings') (hkeys : (settings.map Prod.fst).Nodup) :
    a.setAll settings = a.setAll settings' := by
  have hkeys' : (settings'.map Prod.fst).Nodup := (hperm.map Prod.fst).nodup_iff.mp hkeys
  refine setAll_congr fun key => Option.ext fun v => ?_
  rw [SortedMap.lastUnder?_eq_some_iff hkeys, SortedMap.lastUnder?_eq_some_iff hkeys',
    hperm.mem_iff]

/-! ## The text of merged arguments -/

/-- The options are written by ascending key, whatever list of the keys is taken. -/
lemma parameters_eq (on : Bool) {a : Arguments} {keys : List String}
    (hsorted : keys.Pairwise fun k k' => compare k k' = .lt)
    (hkeys : ∀ key, key ∈ keys ↔ key ∈ a.options.keys) :
    parameters on a =
      a.positional.map (fun v => escapeIf on argumentSpecial v.render.toList) ++
        keys.filterMap fun key => (a.get? key).bind (option? on key) := by
  obtain rfl : keys = a.options.keys :=
    SortedMap.eq_of_sorted hsorted a.options.keys_sorted hkeys
  rw [parameters, SortedMap.keys, List.filterMap_map]
  refine congrArg _ (List.filterMap_congr fun e he => ?_)
  have hget : a.get? e.1 = some e.2 := (SortedMap.mem_toList_iff a.options).mp he
  simp [hget]

end Arguments

/-! ## Calls with parts of arguments -/

/-- The call with other parts of arguments, if it is given any. -/
def Call.withParts (parts : List Arguments) : Call → Call
  | .multiOutput i inputs name _ => .multiOutput i inputs name parts
  | .filter i inputs name _ => .filter i inputs name parts
  | .concat i inputs _ => .concat i inputs parts
  | .apply s name _ => .apply s name parts
  | .concatAfter s others _ => .concatAfter s others parts
  | call => call

/-- A call sees of the parts only what they merge to. -/
lemma Session.perform_withParts {xs ys : List Arguments}
    (h : Arguments.merge xs = Arguments.merge ys) (s : Session) (call : Call) :
    s.perform (call.withParts xs) = s.perform (call.withParts ys) := by
  have htarget : (call.withParts xs).target = (call.withParts ys).target := by
    cases call <;> rfl
  have hwork : Edit.ofCall (call.withParts xs) = Edit.ofCall (call.withParts ys) := by
    cases call <;>
      simp only [Call.withParts, Edit.ofCall, Edit.addMultiOutput, Edit.apply, Edit.addFilter,
        Edit.concatAfter, Edit.addConcat, h]
  rw [perform, perform, htarget, hwork]

namespace Arguments

/-- **The laws of merging.** The positional arguments are those of the first part that has any, and
every option has its value from the last part that sets it; no other option is there. So parts can
be merged in two groups, an empty part can stand anywhere, and parts give the same arguments exactly
if they say the same. It does not matter in which order options were set, as long as the last value
under every key is the same. In the text come the leading values and then the last values by
ascending key; therefore a call is answered the same, and leaves the same graphs behind, with any
parts that say the same.

**Proof sketch.** Parts are added associatively, although positional lists and options go in
opposite directions (`add_assoc`), so `merge_append` splits a list anywhere and inductions along it
give what merged arguments say (`positional_merge`, `get?_merge`). Arguments are known by that
(`ext_of_get?`), and every call that is given parts first merges them. -/
theorem merge_laws (xs ys : List Arguments) :
    (merge xs).positional = leading xs ∧
    (∀ key, (merge xs).get? key = lastValue? xs key) ∧
    (∀ key, key ∈ (merge xs).options.keys ↔ ∃ a ∈ xs, key ∈ a.options.keys) ∧
    merge (xs ++ ys) = merge [merge xs, merge ys] ∧
    (∀ a, a.isEmpty → merge (xs ++ a :: ys) = merge (xs ++ ys)) ∧
    (merge xs = merge ys ↔ Agree xs ys) ∧
    (∀ (a : Arguments) (settings settings' : List (String × Value)),
      (∀ key, SortedMap.lastUnder? key settings = SortedMap.lastUnder? key settings') ∨
          settings.Perm settings' ∧ (settings.map Prod.fst).Nodup →
        a.setAll settings = a.setAll settings') ∧
    (∀ (on : Bool) (keys : List String), keys.Pairwise (fun k k' => compare k k' = .lt) →
      (∀ key, key ∈ keys ↔ ∃ a ∈ xs, key ∈ a.options.keys) →
        parameters on (merge xs) =
          (leading xs).map (fun v => escapeIf on argumentSpecial v.render.toList) ++
            keys.filterMap fun key => (lastValue? xs key).bind (option? on key)) ∧
    (Agree xs ys →
      (∀ (on : Bool) (name : String),
        specification on name (merge xs) = specification on name (merge ys)) ∧
      ∀ (c : Client) (call : Call),
        c.answer (call.withParts xs) = c.answer (call.withParts ys) ∧
        c.after (call.withParts xs) = c.after (call.withParts ys)) := by
  refine ⟨positional_merge xs, get?_merge xs, fun _ => mem_keys_merge, ?_,
    fun a ha => merge_insert_empty ha xs ys, merge_eq_iff, ?_, ?_, ?_⟩
  · rw [merge_append, merge_cons, merge_singleton]
  · rintro a settings settings' (hlast | ⟨hperm, hkeys⟩)
    · exact setAll_congr hlast
    · exact setAll_of_perm hperm hkeys
  · intro on keys hsorted hkeys
    rw [parameters_eq on hsorted fun key => (hkeys key).trans mem_keys_merge.symm,
      positional_merge]
    simp only [get?_merge]
  · intro hagree
    have hmerge : merge xs = merge ys := merge_eq_iff.mpr hagree
    exact ⟨fun on name => by rw [hmerge],
      fun c call => Client.congr_of_perform_eq (c.session.perform_withParts hmerge call)⟩

/-- Parts of one filter: a size by position, and options of which one is set twice. -/
def sizedParts : List Arguments :=
  [empty.setAll [("flags", .text "bilinear"), ("eval", .text "init")],
    ((empty.push (.int 320)).push (.int 240)).setAll [("eval", .text "frame")],
    empty.push (.int 1)]

/-- The same said in other parts, with the options set in another order. -/
def resizedParts : List Arguments :=
  [empty, (empty.push (.int 320)).push (.int 240),
    empty.setAll [("eval", .text "frame"), ("flags", .text "bilinear")]]

/-- Different parts that say the same are one text, with the options by ascending key. -/
theorem merge_sizedParts :
    Agree sizedParts resizedParts ∧
    merge sizedParts = merge resizedParts ∧
    specification true "scale" (merge resizedParts) =
      "scale=320:240:eval=frame:flags=bilinear".toList := by
  obtain ⟨-, -, -, -, -, hmerge, -, -, hsame⟩ := merge_laws sizedParts resizedParts
  have hagree : Agree sizedParts resizedParts := by
    refine ⟨rfl, fun key => ?_⟩
    by_cases heval : key = "eval"
    · subst heval
      rfl
    by_cases hflags : key = "flags"
    · subst hflags
      rfl
    -- every other key is in no part
    have hnone : ∀ parts, (∀ a ∈ parts, a.get? key = none) → lastValue? parts key = none := by
      simp [lastValue?]
    rw [hnone sizedParts, hnone resizedParts]
    · simp [resizedParts, SortedMap.lastUnder?, Ne.symm heval, Ne.symm hflags]
    · simp [sizedParts, SortedMap.lastUnder?, Ne.symm heval, Ne.symm hflags]
  exact ⟨hagree, hmerge.mpr hagree, by rw [← (hsame hagree).1]; decide +kernel⟩

end Arguments

end MediaGraph
