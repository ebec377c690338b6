import MediaGraph.CommandLine
import MediaGraph.Json.Utf8

/-!
# The program

The outer layer of the command line: it opens the documents that the words name, prints what the
run prints, and ends with its code.

## Main definitions

* `main` — the program.
-/

set_option autoImplicit false

namespace MediaGraph

/-- What the system answers when a document cannot be read: its words for one that cannot be
opened, and nothing to read for what is no document. -/
def unreadable (e : IO.Error) : Except String (List Json.Symbol) :=
  match e with
  | .noFileOrDirectory _ _ _ => .error "No such file or directory (os error 2)"
  | .permissionDenied _ _ _ => .error "Permission denied (os error 13)"
  | .inappropriateType _ _ _ => .ok []
  | e => .error (toString e)

/-- Opens the document at a path. -/
def openDocument (path : String) : IO (Except String (List Json.Symbol)) := do
  try
    let bytes ← IO.FS.readBinFile path
    return .ok (Json.decodeUtf8 bytes.toList)
  catch e => return unreadable e

/-- The line for a report. -/
def reportLine (e : Event) : String :=
  " ".intercalate (e.level :: e.text :: e.fields.map fun field => field.1 ++ "=" ++ field.2)

end MediaGraph

open MediaGraph in
/-- The program. -/
def main (words : List String) : IO UInt32 := do
  let mut opened : List (String × Except String (List Json.Symbol)) := []
  for path in CommandLine.paths words do
    opened := (path, ← openDocument path) :: opened
  let documents := opened
  let outcome := CommandLine.run
    (fun path => (documents.lookup path).getD (.error "not opened")) words
  let stderr ← IO.getStderr
  for e in outcome.reports do
    if e.level == "DEBUG" then
      stderr.putStr (reportLine e ++ "\n")
  (← IO.getStdout).putStr outcome.output
  stderr.putStr outcome.errors
  return outcome.code.toUInt32
