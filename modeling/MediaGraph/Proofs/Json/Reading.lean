import MediaGraph.Json.Printer
import MediaGraph.Json.Shape
import MediaGraph.Proofs.Json.Numbers
import MediaGraph.Proofs.Json.Strings

/-!
# Documents are read as they were written

A tree that was written starts with a character that is neither white space nor the end of an
array, and it ends before a comma or the end of what it stands in. So every reader in turn meets
the very symbols that were written for its part. Two calls for every symbol are enough, and one
more for each list of items or members.

## Main definitions

* `MediaGraph.Json.Written` — the trees that are written without numbers with a fraction.
* `MediaGraph.Json.Returns` — the reader takes a tree back from its symbols.

## Main results

* `MediaGraph.Json.Written.returns` — the reader takes every written tree back.
* `MediaGraph.Json.Written.read_text` — the text of a tree is read as the tree.
-/

set_option autoImplicit false

namespace MediaGraph.Json

/-- The trees that are written without numbers with a fraction or a power of ten. -/
inductive Written : Json → Prop where
  /-- The word for nothing. -/
  | null : Written .null
  /-- A truth value. -/
  | bool (b : Bool) : Written (.bool b)
  /-- A whole number. -/
  | int (i : Int) : Written (.ofInt i)
  /-- A text. -/
  | text (s : String) : Written (.ofText s)
  /-- A list. -/
  | list {items : List Json} (each : ∀ j ∈ items, Written j) : Written (.ofList items)
  /-- A record. -/
  | fields {members : List (String × Json)} (each : ∀ m ∈ members, Written m.2) :
      Written (.ofFields members)

/-! ## The front of a tree -/

/-- Whether symbols start with a character that is no white space and does not end an array. -/
def Starts (cs : List Symbol) : Prop :=
  ∃ c tail, cs = some c :: tail ∧ isSpace (some c) = false ∧ c ≠ ']'

lemma starts_append {cs : List Symbol} (h : Starts cs) (rest : List Symbol) :
    Starts (cs ++ rest) := by
  obtain ⟨c, tail, rfl, hspace, hend⟩ := h
  exact ⟨c, tail ++ rest, rfl, hspace, hend⟩

/-- Nothing is skipped where no white space stands. -/
lemma skipSpace_cons {c : Char} (h : isSpace (some c) = false) (cs : List Symbol) :
    skipSpace (some c :: cs) = some c :: cs := by
  simp [skipSpace, h]

lemma skipSpace_of_starts {cs : List Symbol} (h : Starts cs) : skipSpace cs = cs := by
  obtain ⟨c, tail, rfl, hspace, -⟩ := h
  exact skipSpace_cons hspace tail

/-- The characters at the front of a whole number. -/
lemma exists_text_ofInt (i : Int) :
    ∃ c tail, (Numeral.ofInt i).text = c :: tail ∧ (c = '-' ∨ c.isDigit = true) := by
  by_cases hi : i < 0
  · exact ⟨'-', Numeral.digitsOf i.natAbs, by simp [Numeral.text, Numeral.ofInt, hi], .inl rfl⟩
  · obtain ⟨d, ds, hds, hd, -⟩ := Numeral.exists_digits i.natAbs
    exact ⟨d, ds, by simp [Numeral.text, Numeral.ofInt, hi, hds], .inr hd⟩

/-- A sign and a digit are no character that another value starts with. -/
lemma ne_of_number {c : Char} (h : c = '-' ∨ c.isDigit = true) {x : Char} (hsign : x ≠ '-')
    (hdigit : x.isDigit = false) : c ≠ x := by
  rintro rfl
  rcases h with h | h
  · exact hsign h
  · exact Bool.false_ne_true (hdigit.symm.trans h)

/-- A written tree starts with a character of its own. -/
lemma Written.starts {j : Json} (h : Written j) : Starts j.print := by
  cases h with
  | null => exact ⟨'n', _, rfl, rfl, by decide⟩
  | bool b => cases b <;> exact ⟨_, _, rfl, rfl, by decide⟩
  | int i =>
    obtain ⟨c, tail, htext, hc⟩ := exists_text_ofInt i
    refine ⟨c, tail.map some, by simp [ofInt, print, htext], ?_, ne_of_number hc ?_ ?_⟩
    · simp [isSpace, ne_of_number hc]
    · decide
    · decide
  | text s => exact ⟨'"', _, rfl, rfl, by decide⟩
  | list each => exact ⟨'[', _, rfl, rfl, by decide⟩
  | fields each => exact ⟨'{', _, rfl, rfl, by decide⟩

/-! ## Words, numbers and strings -/

/-- The reader takes the tree back from its symbols, whatever stands behind it. -/
def Returns (j : Json) : Prop :=
  ∀ ⦃calls : Nat⦄ ⦃rest : List Symbol⦄, Ends rest → 2 * j.print.length ≤ calls →
    readValue calls (j.print ++ rest) = (j, some rest)

/-- What is no array and no object is read at once. -/
lemma returns_of_readScalar {j : Json} {c : Char} {tail : List Symbol}
    (hprint : j.print = some c :: tail) (hspace : isSpace (some c) = false)
    (harray : c ≠ '[') (hobject : c ≠ '{')
    (h : ∀ rest, Ends rest → readScalar (some c :: (tail ++ rest)) = (j, some rest)) :
    Returns j := by
  intro calls rest hrest hcalls
  obtain ⟨calls, rfl⟩ : ∃ n, calls = n + 1 := ⟨calls - 1, by simp [hprint] at hcalls; omega⟩
  rw [hprint, List.cons_append, readValue, skipSpace_cons hspace]
  split
  · simp_all
  · simp_all
  · exact h rest hrest

lemma returns_null : Returns .null :=
  returns_of_readScalar rfl (by decide) (by decide) (by decide) fun _ _ => rfl

lemma returns_bool (b : Bool) : Returns (.bool b) := by
  cases b <;>
    exact returns_of_readScalar rfl (by decide) (by decide) (by decide) fun _ _ => rfl

lemma returns_int (i : Int) : Returns (.ofInt i) := by
  obtain ⟨c, tail, htext, hc⟩ := exists_text_ofInt i
  have hprint : (ofInt i).print = some c :: tail.map some := by simp [ofInt, print, htext]
  refine returns_of_readScalar hprint ?_ (ne_of_number hc (by decide) (by decide))
    (ne_of_number hc (by decide) (by decide)) fun rest hrest => ?_
  · simp [isSpace, ne_of_number hc]
  · have hscan : scanNumber (some c :: (tail.map some ++ rest)) = some (.ofInt i, rest) := by
      simpa [htext] using scanNumber_ofInt i hrest
    rw [readScalar, hscan]
    · rfl
    -- the first character is that of no word and no quote
    all_goals
      intro _ heq
      have hx := Option.some.inj (List.cons.inj heq).1
      exact ne_of_number hc (by decide) (by decide) hx

/-- The body of a string ends at its closing quote. -/
lemma returns_text (s : String) : Returns (.ofText s) := by
  refine returns_of_readScalar rfl (by decide) (by decide) (by decide) fun rest _ => ?_
  have hscan := scanString_encodeBody s.toList rest
  simp [readScalar, hscan, ofText]

/-! ## Lists and records -/

/-- An array with an item is read by its items. -/
lemma readValue_array (calls : Nat) {cs : List Symbol} (hcs : Starts cs) :
    readValue (calls + 1) (some '[' :: cs) =
      (.array (readItems calls cs).1 (readItems calls cs).2.isSome, (readItems calls cs).2) := by
  obtain ⟨c, tail, rfl, -, hc⟩ := id hcs
  rw [readValue, skipSpace_cons (by decide)]
  simp only [skipSpace_of_starts hcs]
  split
  · simp_all
  · rfl

/-- The items of a list end where the list does. -/
lemma readItems_print {items : List Json} (hne : items ≠ []) (hreturns : ∀ j ∈ items, Returns j)
    (rest : List Symbol) {calls : Nat} (hcalls : 2 * (printItems items).length + 1 ≤ calls) :
    readItems calls (printItems items ++ some ']' :: rest) = (items, some rest) := by
  induction items generalizing calls with
  | nil => exact absurd rfl hne
  | cons j tail ih =>
    obtain ⟨calls, rfl⟩ : ∃ n, calls = n + 1 := ⟨calls - 1, by omega⟩
    obtain ⟨hj, htail⟩ := List.forall_mem_cons.mp hreturns
    cases tail with
    | nil =>
      have hlast : 2 * j.print.length ≤ calls := by
        simp only [printItems] at hcalls
        omega
      have hread := hj (ends_cons (.inr (.inl rfl)) rest) hlast
      rw [printItems, readItems, hread]
      rfl
    | cons k tail =>
      have hlen : (printItems (j :: k :: tail)).length =
          j.print.length + 1 + (printItems (k :: tail)).length := by
        simp [printItems]; omega
      have hfirst : 2 * j.print.length ≤ calls := by omega
      have hothers : 2 * (printItems (k :: tail)).length + 1 ≤ calls := by omega
      have hread := hj (ends_cons (.inl rfl) (printItems (k :: tail) ++ some ']' :: rest)) hfirst
      have hcomma : isSpace (some ',') = false := by decide
      rw [printItems, List.append_assoc, List.cons_append, readItems, hread]
      · simp only [skipSpace_cons hcomma, ih (List.cons_ne_nil k tail) htail hothers]
      · simp

lemma starts_printItems {j : Json} (hj : Starts j.print) (tail : List Json) :
    Starts (printItems (j :: tail)) := by
  cases tail with
  | nil => exact hj
  | cons k tail => exact starts_append hj _

lemma returns_list {items : List Json} (hstarts : ∀ j ∈ items, Starts j.print)
    (hreturns : ∀ j ∈ items, Returns j) : Returns (.ofList items) := by
  intro calls rest hrest hcalls
  obtain ⟨calls, rfl⟩ : ∃ n, calls = n + 1 := ⟨calls - 1, by simp [ofList, print] at hcalls; omega⟩
  cases items with
  | nil => rfl
  | cons j tail =>
    have hprint : (ofList (j :: tail)).print ++ rest =
        some '[' :: (printItems (j :: tail) ++ some ']' :: rest) := by
      simp [ofList, print]
    have hfront : Starts (printItems (j :: tail) ++ some ']' :: rest) :=
      starts_append (starts_printItems (hstarts j List.mem_cons_self) tail) _
    have hlen : 2 * (printItems (j :: tail)).length + 1 ≤ calls := by
      simp [ofList, print] at hcalls
      omega
    have hitems := readItems_print (List.cons_ne_nil j tail) hreturns rest hlen
    rw [hprint, readValue_array calls hfront, hitems]
    rfl

/-- The field of a record as a member of an object. -/
def member (e : String × Json) : List Symbol × Json := (encodeBody e.1.toList, e.2)

/-- One member is read at its key, and then the record ends or the next member is read. -/
lemma readMembers_member {e : String × Json} (he : Returns e.2) {calls : Nat}
    (hcalls : 2 * e.2.print.length ≤ calls) (rest : List Symbol) :
    readMembers (calls + 1)
        (printString (member e).1 ++ some ':' :: (e.2.print ++ some '}' :: rest)) =
      ([member e], some rest) ∧
    readMembers (calls + 1)
        (printString (member e).1 ++ some ':' :: (e.2.print ++ some ',' :: rest)) =
      (member e :: (readMembers calls rest).1, (readMembers calls rest).2) := by
  have hquote : isSpace (some '"') = false := by decide
  have hcolon : isSpace (some ':') = false := by decide
  have hclose := he (ends_cons (.inr (.inr rfl)) rest) hcalls
  have hcomma := he (ends_cons (.inl rfl) rest) hcalls
  simp only [member, printString, List.cons_append, List.append_assoc, List.nil_append]
  constructor
  · have hend : isSpace (some '}') = false := by decide
    rw [readMembers, skipSpace_cons hquote]
    simp only [scanString_encodeBody, skipSpace_cons hcolon, hclose, skipSpace_cons hend]
  · have hsign : isSpace (some ',') = false := by decide
    rw [readMembers, skipSpace_cons hquote]
    simp only [scanString_encodeBody, skipSpace_cons hcolon, hcomma, skipSpace_cons hsign]

/-- An object with a member is read by its members. -/
lemma readValue_object (calls : Nat) (cs : List Symbol) :
    readValue (calls + 1) (some '{' :: some '"' :: cs) =
      (.object (readMembers calls (some '"' :: cs)).1 (readMembers calls (some '"' :: cs)).2.isSome,
        (readMembers calls (some '"' :: cs)).2) := rfl

/-- The members of a record end where the record does. -/
lemma readMembers_print {fields : List (String × Json)} (hne : fields ≠ [])
    (hreturns : ∀ e ∈ fields, Returns e.2) (rest : List Symbol) {calls : Nat}
    (hcalls : 2 * (printMembers (fields.map member)).length + 1 ≤ calls) :
    readMembers calls (printMembers (fields.map member) ++ some '}' :: rest) =
      (fields.map member, some rest) := by
  induction fields generalizing calls with
  | nil => exact absurd rfl hne
  | cons e tail ih =>
    obtain ⟨calls, rfl⟩ : ∃ n, calls = n + 1 := ⟨calls - 1, by omega⟩
    obtain ⟨he, htail⟩ := List.forall_mem_cons.mp hreturns
    cases tail with
    | nil =>
      have hprint : printMembers ([e].map member) ++ some '}' :: rest =
          printString (member e).1 ++ some ':' :: (e.2.print ++ some '}' :: rest) := by
        simp [printMembers, member]
      have hlen : 2 * e.2.print.length ≤ calls := by
        simp [printMembers, member] at hcalls; omega
      rw [hprint, (readMembers_member he hlen rest).1]
      rfl
    | cons f tail =>
      have hprint : printMembers ((e :: f :: tail).map member) ++ some '}' :: rest =
          printString (member e).1 ++ some ':' :: (e.2.print ++
            some ',' :: (printMembers ((f :: tail).map member) ++ some '}' :: rest)) := by
        simp [printMembers, member]
      have hlen : (printMembers ((e :: f :: tail).map member)).length =
          (printString (member e).1).length + e.2.print.length + 2 +
            (printMembers ((f :: tail).map member)).length := by
        simp [printMembers, member]; omega
      have hfirst : 2 * e.2.print.length ≤ calls := by omega
      have hothers : 2 * (printMembers ((f :: tail).map member)).length + 1 ≤ calls := by omega
      rw [hprint, (readMembers_member he hfirst _).2]
      simp only [ih (List.cons_ne_nil f tail) htail hothers]
      rfl

lemma ofFields_eq (fields : List (String × Json)) :
    ofFields fields = .object (fields.map member) true := rfl

lemma returns_fields {fields : List (String × Json)} (hreturns : ∀ e ∈ fields, Returns e.2) :
    Returns (.ofFields fields) := by
  intro calls rest hrest hcalls
  have hlen : (ofFields fields).print.length = (printMembers (fields.map member)).length + 2 := by
    simp [ofFields_eq, print]
  obtain ⟨calls, rfl⟩ : ∃ n, calls = n + 1 := ⟨calls - 1, by omega⟩
  cases fields with
  | nil => rfl
  | cons e tail =>
    have hothers : 2 * (printMembers ((e :: tail).map member)).length + 1 ≤ calls := by omega
    have hmembers := readMembers_print (List.cons_ne_nil e tail) hreturns rest hothers
    obtain ⟨cs, hcs⟩ : ∃ cs, printMembers ((e :: tail).map member) ++ some '}' :: rest =
        some '"' :: cs := by
      cases tail <;> exact ⟨_, rfl⟩
    have hprint : (ofFields (e :: tail)).print ++ rest = some '{' :: some '"' :: cs := by
      rw [ofFields_eq, print, ← hcs]
      simp
    rw [hprint, readValue_object, ← hcs, hmembers]
    rfl

/-! ## Documents -/

/-- **The reader takes every written tree back.**

**Proof sketch.** Induction on the tree. The items of a list are each taken back up to the comma
or the end behind them, and so are the values of a record. -/
theorem Written.returns {j : Json} (h : Written j) : Returns j := by
  induction h with
  | null => exact returns_null
  | bool b => exact returns_bool b
  | int i => exact returns_int i
  | text s => exact returns_text s
  | list each ih => exact returns_list (fun j hj => (each j hj).starts) ih
  | fields each ih => exact returns_fields ih

/-- **Nothing is left of a document** behind the tree that was written. -/
theorem Written.read_print {j : Json} (h : Written j) : read j.print = (j, true) := by
  have hread := h.returns ends_nil (show 2 * j.print.length ≤ 2 * j.print.length + 2 by omega)
  rw [List.append_nil] at hread
  rw [read, hread]
  rfl

/-! ## Texts of documents -/

lemma none_notMem_printItems {items : List Json} (h : ∀ j ∈ items, none ∉ j.print) :
    none ∉ printItems items := by
  induction items with
  | nil => simp [printItems]
  | cons j tail ih =>
    obtain ⟨hj, htail⟩ := List.forall_mem_cons.mp h
    cases tail with
    | nil => exact hj
    | cons k tail =>
      have := ih htail
      simp [printItems, hj, this]

lemma none_notMem_printMembers {fields : List (String × Json)}
    (h : ∀ e ∈ fields, none ∉ e.2.print) : none ∉ printMembers (fields.map member) := by
  induction fields with
  | nil => simp [printMembers]
  | cons e tail ih =>
    obtain ⟨he, htail⟩ := List.forall_mem_cons.mp h
    have hkey : none ∉ printString (member e).1 := by simp [member, printString, encodeBody]
    cases tail with
    | nil => simpa [printMembers, member, he] using hkey
    | cons f tail =>
      have hrest : none ∉ printMembers ((f :: tail).map member) := ih htail
      have hcons : printMembers ((e :: f :: tail).map member) =
          printString (member e).1 ++ some ':' :: e.2.print ++
            some ',' :: printMembers ((f :: tail).map member) := rfl
      rw [hcons]
      simpa [he, hkey] using hrest

/-- Only characters are written. -/
lemma Written.none_notMem_print {j : Json} (h : Written j) : none ∉ j.print := by
  induction h with
  | null => simp [print, symbols]
  | bool b => simp [print, symbols]
  | int i => simp [ofInt, print]
  | text s => simp [ofText, print, printString, encodeBody]
  | list each ih => simpa [ofList, print] using none_notMem_printItems ih
  | fields each ih => simpa [ofFields_eq, print] using none_notMem_printMembers ih

lemma map_some_filterMap {cs : List Symbol} (h : none ∉ cs) :
    (cs.filterMap id).map some = cs := by
  induction cs with
  | nil => rfl
  | cons s tail ih =>
    cases s with
    | none => exact absurd List.mem_cons_self h
    | some c =>
      have htail := ih fun hmem => h (List.mem_cons_of_mem _ hmem)
      simpa using htail

/-- **The text of a tree is read as the tree.** -/
theorem Written.read_text {j : Json} (h : Written j) : read (symbols j.text) = (j, true) := by
  have hsymbols : symbols j.text = j.print := by
    rw [symbols, Json.text, String.toList_ofList, map_some_filterMap h.none_notMem_print]
  rw [hsymbols, h.read_print]

end MediaGraph.Json
