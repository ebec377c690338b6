import MediaGraph.Arguments.Document
import MediaGraph.Settings

/-!
# Settings in documents

## Main definitions

* `MediaGraph.Settings.decoder` — reading settings; every field has a default, no other may be
  given.
* `MediaGraph.Settings.toJson` — writing them.
* `MediaGraph.Settings.parse` — the settings of a document, which must be in order.
-/

set_option autoImplicit false

namespace MediaGraph.Settings

open Json (Decoder Problem)

/-- The fields read so far. -/
structure Fields where
  /-- The stem of assigned labels. -/
  stem : Option String := none
  /-- The first number of an assigned label. -/
  first : Option Nat := none
  /-- Whether texts are escaped. -/
  escape : Option Bool := none

/-- Reads one field. -/
def Fields.read (depth : Nat) (f : Fields) (name : String) (j : Json) : Except Problem Fields :=
  match name with
  | "label_prefix" => do
    let given ← Decoder.once name f.stem (Decoder.text depth j)
    return { f with stem := given }
  | "first_label" => do
    let given ← Decoder.once name f.first (Decoder.natural Width.max64 depth j)
    return { f with first := given }
  | "escape" => do
    let given ← Decoder.once name f.escape (Decoder.flag depth j)
    return { f with escape := given }
  | _ => .error (.unknownField name)

/-- The settings with the given fields, the others at their defaults. -/
def ofFields (f : Fields) : Settings :=
  let usual : Settings := {}
  ⟨f.stem.getD usual.stem, f.first.getD usual.first, f.escape.getD usual.escape⟩

/-- Reads settings. -/
def decoder : Decoder Settings :=
  .record ["label_prefix", "first_label", "escape"] {} Fields.read fun f => .ok (ofFields f)

/-- The tree of settings. -/
def toJson (s : Settings) : Json :=
  .ofFields [("label_prefix", .ofText s.stem), ("first_label", .ofInt s.first),
    ("escape", .bool s.escape)]

/-- The settings of a document. -/
def parse (document : List Json.Symbol) : Except Error Settings := do
  match Json.decode decoder document with
  | .ok s =>
    s.validate
    return s
  | .error problem => throw (.document .compileOptions problem)

end MediaGraph.Settings
