import MediaGraph.Description.Document
import MediaGraph.Session
import MediaGraph.Settings.Document

/-!
# The command line

The program has two commands. `compile` prints the expression of a described graph and, if asked
to, the label of each of its terminals; `check` only tells whether there is an expression. Options
take their value from behind an equals sign or from the next word, which must not look like an
option then, and none may be given twice.

A run is a function of the words on the command line and of the documents; opening a document may
fail.

## Main definitions

* `MediaGraph.CommandLine.Request` — what the words ask for; `CommandLine.parse` reads them.
* `MediaGraph.CommandLine.Outcome` — what a run prints and the code that it ends with.
* `MediaGraph.CommandLine.run` — a run.
-/

set_option autoImplicit false

namespace MediaGraph.CommandLine

/-- The words of a compilation. -/
structure CompileRequest where
  /-- The path of the description. -/
  input : String
  /-- The path of the settings. -/
  options : Option String
  /-- The stem of assigned labels, in place of that of the settings. -/
  stem : Option String
  /-- Whether nothing is escaped, whatever the settings say. -/
  noEscape : Bool
  /-- Whether the labels of the terminals are printed. -/
  showOutputs : Bool
  deriving DecidableEq, Repr

/-- What the words of a command line ask for. -/
inductive Request where
  /-- The version of the program. -/
  | version
  /-- An explanation of the program. -/
  | help
  /-- A compilation. -/
  | compile (request : CompileRequest)
  /-- A check of the description at a path. -/
  | check (input : String)
  /-- Nothing that the program knows. -/
  | unusable
  deriving DecidableEq, Repr

/-! ## Options -/

/-- The words for an option. -/
structure OptionSpec where
  /-- The word behind two hyphens. -/
  long : String
  /-- The letter behind a single hyphen. -/
  short : Option Char := none
  /-- Whether the option has a value. -/
  takesValue : Bool := false
  /-- Whether the value is a path, which cannot be empty. -/
  isPath : Bool := false
  deriving DecidableEq, Repr

/-- The option for reports, which stands in front of a command or behind it. -/
def verboseOption : OptionSpec := { long := "verbose", short := some 'v' }

/-- The option for an explanation. -/
def helpOption : OptionSpec := { long := "help", short := some 'h' }

/-- The option for the version. -/
def versionOption : OptionSpec := { long := "version", short := some 'V' }

/-- The option for the path of a description. -/
def inputOption : OptionSpec := { long := "in", takesValue := true, isPath := true }

/-- The option for the path of settings. -/
def settingsOption : OptionSpec := { long := "opts", takesValue := true, isPath := true }

/-- The option for the stem of assigned labels. -/
def stemOption : OptionSpec := { long := "label-prefix", takesValue := true }

/-- The option against escaping. -/
def noEscapeOption : OptionSpec := { long := "no-escape" }

/-- The option for the labels of the terminals. -/
def showOutputsOption : OptionSpec := { long := "show-outputs" }

/-- The options in front of a command. -/
def programOptions : List OptionSpec := [verboseOption, helpOption, versionOption]

/-- The options of a check. -/
def checkOptions : List OptionSpec := [inputOption, verboseOption, helpOption]

/-- The options of a compilation. -/
def compileOptions : List OptionSpec :=
  [inputOption, settingsOption, stemOption, noEscapeOption, showOutputsOption, verboseOption,
    helpOption]

/-- The options given so far, by their long words, with their values. -/
abbrev Given := List (String × String)

/-- Whether an option was given. -/
def isGiven (given : Given) (spec : OptionSpec) : Bool := (given.lookup spec.long).isSome

/-- The options after `spec` was met with a value. Two of them answer at once. -/
def accept (given : Given) (spec : OptionSpec) (value : String) : Except Request Given :=
  if isGiven given spec || spec.isPath && value == "" then .error .unusable
  else if spec = versionOption then .error .version
  else if spec = helpOption then .error .help
  else .ok ((spec.long, value) :: given)

/-- The options after letters behind a single hyphen, each of which is an option without a
value. -/
def acceptLetters (specs : List OptionSpec) : Given → List Char → Except Request Given
  | given, [] => .ok given
  | given, c :: rest =>
    match specs.find? fun spec => spec.short == some c with
    | some spec => do
      let given ← accept given spec ""
      acceptLetters specs given rest
    | none => .error .unusable

/-- The parts of a word before and behind its first equals sign, if it has one. -/
def splitValue (cs : List Char) : String × Option String :=
  (String.ofList (cs.takeWhile (· != '=')),
    match cs.dropWhile (· != '=') with
    | [] => none
    | _ :: value => some (String.ofList value))

/-- Whether a word starts with a hyphen and is more than that, so that it can be no value. -/
def looksLikeOption (word : String) : Bool :=
  match word.toList with
  | '-' :: _ :: _ => true
  | _ => false

/-- What one word is. -/
inductive Word where
  /-- Options, after which these are given. -/
  | options (given : Given)
  /-- An option whose value is the next word. -/
  | awaits (spec : OptionSpec)
  /-- The end of the options. -/
  | ends
  /-- No option. -/
  | plain
  /-- An option that answers at once. -/
  | answer (request : Request)
  deriving DecidableEq, Repr

/-- The word after which these options are given, unless one answers at once. -/
def Word.ofAccepted : Except Request Given → Word
  | .ok given => .options given
  | .error request => .answer request

/-- What a word is. -/
def readWord (specs : List OptionSpec) (given : Given) (word : String) : Word :=
  match word.toList with
  | ['-', '-'] => .ends
  | '-' :: '-' :: cs =>
    let (name, value) := splitValue cs
    match specs.find? fun spec => spec.long == name with
    | none => .answer .unusable
    | some spec =>
      match spec.takesValue, value with
      | false, none => .ofAccepted (accept given spec "")
      | true, some value => .ofAccepted (accept given spec value)
      | true, none => .awaits spec
      | false, some _ => .answer .unusable
  | '-' :: c :: cs => .ofAccepted (acceptLetters specs given (c :: cs))
  | _ => .plain

/-- What reading options came to. -/
inductive Reading where
  /-- All words are read. -/
  | done (given : Given)
  /-- A word that is no option was met, with others behind it. -/
  | plain (given : Given) (word : String) (rest : List String)
  /-- The words ask for this, whatever else they say. -/
  | answer (request : Request)
  deriving DecidableEq, Repr

/-- Reads options up to the first word that is none. The option that waits for its value takes
the next word. -/
def readOptions (specs : List OptionSpec) :
    Given → Option OptionSpec → List String → Reading
  | given, none, [] => .done given
  | _, some _, [] => .answer .unusable
  | given, some spec, word :: rest =>
    if looksLikeOption word then .answer .unusable
    else
      match accept given spec word with
      | .ok given => readOptions specs given none rest
      | .error request => .answer request
  | given, none, word :: rest =>
    match readWord specs given word with
    | .options given => readOptions specs given none rest
    | .awaits spec => readOptions specs given (some spec) rest
    | .ends => if rest.isEmpty then .done given else .answer .unusable
    | .plain => .plain given word rest
    | .answer request => .answer request

/-! ## Requests -/

/-- The request of a command with the given options. -/
def commandRequest (command : String) (given : Given) : Request :=
  match given.lookup inputOption.long with
  | none => .unusable
  | some input =>
    if command = "compile" then
      .compile ⟨input, given.lookup settingsOption.long, given.lookup stemOption.long,
        isGiven given noEscapeOption, isGiven given showOutputsOption⟩
    else .check input

/-- What the words behind a command ask for, and whether reports are wanted. -/
def parseCommand (command : String) (words : List String) : Request × Bool :=
  let specs := if command = "compile" then compileOptions else checkOptions
  match readOptions specs [] none words with
  | .done given => (commandRequest command given, isGiven given verboseOption)
  | .plain _ _ _ => (.unusable, false)
  | .answer request => (request, false)

/-- Whether the words behind `help` name at most one command, and nothing else. -/
def isHelpTopic : List String → Bool
  | [] => true
  | [command] => ["compile", "check", "help"].contains command
  | _ => false

/-- What the words of a command line ask for, and whether reports are wanted. -/
def parse (words : List String) : Request × Bool :=
  match readOptions programOptions [] none words with
  | .done _ => (.unusable, false)
  | .answer request => (request, false)
  | .plain given command rest =>
    if command = "compile" ∨ command = "check" then
      let (request, verbose) := parseCommand command rest
      (request, verbose || isGiven given verboseOption)
    else if command = "help" ∧ isHelpTopic rest then (.help, false)
    else (.unusable, false)

/-! ## Runs -/

/-- The document at a path, or the reason of the system why it cannot be opened. -/
abbrev Documents := String → Except String (List Json.Symbol)

/-- What a run prints, what it reports, and the code that it ends with. -/
structure Outcome where
  /-- The code: 0 after success, 1 after an error, 2 for words that ask for nothing. -/
  code : Nat
  /-- The text on the standard output. -/
  output : String
  /-- The text on the error output. -/
  errors : String
  /-- The reports. -/
  reports : List Event
  deriving DecidableEq

/-- An error on its way to the user: what failed, and what lies behind that. -/
structure Failure where
  /-- What failed. -/
  message : String
  /-- What lies behind it. -/
  cause : Option String

namespace Failure

/-- An error as it is. -/
def ofError (e : Error) : Failure := ⟨e.message, e.cause?⟩

/-- An error behind a wider one. -/
def within (message : String) (e : Error) : Failure := ⟨message, some e.message⟩

/-- A text whose every line is indented. -/
def indent (s : String) : String :=
  String.ofList (s.toList.flatMap fun c =>
    if c = '\n' then "\n    ".toList else [c])

/-- The text for the user. -/
def text (f : Failure) : String :=
  "Error: " ++ f.message ++
    (match f.cause with
      | none => ""
      | some cause => "\n\nCaused by:\n    " ++ indent cause) ++ "\n"

end Failure

/-- Opens a document and reads it. -/
def load {α : Type} (documents : Documents) (kind : DocumentKind)
    (parse : List Json.Symbol → Except Error α) (path : String) : Except Error α :=
  match documents path with
  | .ok document => parse document
  | .error reason => .error (.unopened kind path reason)

/-- The description at a path. -/
def loadDescription (documents : Documents) (path : String) : Except Error Description :=
  load documents .graphDescription Description.parse path

/-- The settings at a path. -/
def loadSettings (documents : Documents) (path : String) : Except Error Settings :=
  load documents .compileOptions Settings.parse path

/-- The settings of a compilation: those of the document, if one is named, with what the words
say in their place. -/
def CompileRequest.settings (r : CompileRequest) (documents : Documents) :
    Except Error Settings := do
  let s ← match r.options with
    | none => pure {}
    | some path => loadSettings documents path
  return { s with stem := r.stem.getD s.stem, escape := s.escape && !r.noEscape }

/-- Work on one new graph, with its reports. -/
abbrev Work := EStateM Failure (List Event)

/-- A step that may fail. -/
def Work.attempt {α : Type} (failure : Error → Failure) (x : Except Error α) : Work α :=
  match x with
  | .ok a => pure a
  | .error e => throw (failure e)

/-- Work on a graph, which is given back as it is then; what was reported is kept. -/
def Work.ofEdit {α : Type} (g : Graph) (failure : Error → Failure) (work : Edit α) :
    Work (α × Graph) := do
  match work.run ⟨g, #[]⟩ with
  | .ok a d =>
    modify (· ++ d.events.toList)
    return (a, d.graph)
  | .error e d =>
    modify (· ++ d.events.toList)
    throw (failure e)

/-- Builds a description and compiles its terminals. -/
def Work.compile (d : Description) (settings : Settings) (buildFailure : Error → Failure) :
    Work Expression := do
  let (terminals, g) ← Work.ofEdit (.empty 0) buildFailure d.build
  let (expression, _) ← Work.ofEdit g .ofError (Edit.ofReport fun g => g.compile terminals settings)
  return expression

/-- What is printed after a compilation. -/
def compileOutput (r : CompileRequest) (e : Expression) : String :=
  let lines := e.text :: if r.showOutputs then e.outputs.map Label.text else []
  String.join (lines.map (· ++ "\n"))

/-- A compilation. -/
def runCompile (documents : Documents) (r : CompileRequest) : Work String := do
  let d ← Work.attempt .ofError (loadDescription documents r.input)
  let settings ← Work.attempt .ofError (r.settings documents)
  let e ← Work.compile d settings (.within ("build graph from '" ++ r.input ++ "'"))
  return compileOutput r e

/-- A check, with the text of its success. -/
def runCheck (documents : Documents) (input : String) : Work String := do
  let d ← Work.attempt .ofError (loadDescription documents input)
  let e ← Work.compile d {} .ofError
  return s!"ok: {e.nodeCount} node(s), {e.outputs.length} output(s)\n"

/-- The version of the program. -/
def versionText : String := "filtergraph 0.1.0\n"

/-- An explanation of the program. -/
def helpText : String :=
  "Usage: filtergraph [OPTIONS] <COMMAND>\n\n" ++
  "Commands:\n" ++
  "  compile  Compile a JSON graph description and print the filter-graph expression\n" ++
  "  check    Check a JSON graph description without printing the expression\n" ++
  "  help     Print this message\n\n" ++
  "Options:\n" ++
  "  -v, --verbose  Log graph construction and compilation to stderr\n" ++
  "  -h, --help     Print help\n" ++
  "  -V, --version  Print version\n"

/-- The outcome of some work, whose result is printed by `success`. -/
def Outcome.ofWork (work : Work String) (success : String → String × String) : Outcome :=
  match work.run [] with
  | .ok text reports =>
    let (output, errors) := success text
    ⟨0, output, errors, reports⟩
  | .error failure reports => ⟨1, "", failure.text, reports⟩

/-- A run with the given words. -/
def run (documents : Documents) (words : List String) : Outcome :=
  let (request, verbose) := parse words
  let outcome : Outcome :=
    match request with
    | .version => ⟨0, versionText, "", []⟩
    | .help => ⟨0, helpText, "", []⟩
    | .unusable => ⟨2, "", "error: these words ask for nothing, try '--help'\n", []⟩
    | .compile r => .ofWork (runCompile documents r) fun text => (text, "")
    | .check input => .ofWork (runCheck documents input) fun text => ("", text)
  { outcome with reports := if verbose then outcome.reports else [] }

/-- The paths of the documents that the words name. -/
def paths (words : List String) : List String :=
  match (parse words).1 with
  | .compile r => r.input :: r.options.toList
  | .check input => [input]
  | _ => []

end MediaGraph.CommandLine
