import ApiDoc.Command.Arguments

/-!
# Usage

The commands, their grammars, their help pages, and what is said to someone who uses them wrongly.
-/

namespace ApiDoc.Command

def programName : String := "readem"

def version : String := "0.3.0"

inductive Action where
  | generate
  | scan
deriving Repr, DecidableEq, Inhabited

namespace Action

def label : Action → String
  | generate => "generate"
  | scan => "scan"

def all : List Action := [generate, scan]

def ofLabel? : String → Option Action
  | "generate" => some generate
  | "scan" => some scan
  | _ => none

/-- The options of a command, which may stand anywhere among its words. -/
def grammar : Action → Grammar
  | generate =>
    { options := [("--output-dir", .valued), ("--include-single-star", .switch),
        ("--no-index", .switch), ("--help", .switch)]
      mixed := true }
  | scan =>
    { options := [("--include-single-star", .switch), ("--help", .switch)]
      mixed := true }

end Action

def programGrammar : Grammar :=
  { options := [("--version", .switch), ("--config", .valued), ("--help", .switch)]
    mixed := false }

/-! ## Help -/

/-- What a usage line is about: the program, or one of its commands. -/
abbrev Subject := Option Action

namespace Subject

def call : Subject → String
  | none => programName
  | some a => programName ++ " " ++ a.label

/-- The usage line. -/
def usageLine (s : Subject) : String :=
  "Usage: " ++ s.call ++
    match s with
    | none => " [OPTIONS] COMMAND [ARGS]..."
    | some _ => " [OPTIONS] SOURCE"

def summary : Subject → String
  | none => programName ++ ": generate API docs from JSDoc-style comments."
  | some .generate => "Generate Markdown pages for the classes documented in SOURCE."
  | some .scan => "Print the doc comments found in SOURCE as JSON."

/-- Entries with their explanations, the explanations under each other. -/
def columns (entries : List (String × String)) : List String :=
  let width := (entries.map fun e => e.1.length).foldl max 0
  entries.map fun e =>
    "  " ++ e.1 ++ String.ofList (List.replicate (width + 2 - e.1.length) ' ') ++ e.2

/-- The explanation of the switch for plain comments. -/
def singleStarEntry : String × String :=
  ("--include-single-star", "Also read /* */ comments, not only /** */ ones.")

def optionEntries : Subject → List (String × String)
  | none =>
    [("--version", "Show the version and exit."), ("--config FILE", "Path to a YAML config file."),
      ("--help", "Show this message and exit.")]
  | some .generate =>
    [("--output-dir PATH", "Output directory."), singleStarEntry,
      ("--no-index", "Do not write the index page."), ("--help", "Show this message and exit.")]
  | some .scan => [singleStarEntry, ("--help", "Show this message and exit.")]

/-- The list of commands on the help page of the program. -/
def commandLines : Subject → List String
  | none =>
    ["", "Commands:"] ++
      columns (Action.all.map fun a => (a.label, summary (some a)))
  | some _ => []

/-- The help page. -/
def help (s : Subject) : String :=
  "\n".intercalate
    ([s.usageLine, "", "  " ++ s.summary, "", "Options:"] ++ columns s.optionEntries ++
      s.commandLines)

end Subject

/-! ## Wrong usage -/

inductive UsageError where
  | argument (e : ArgumentError)
  | missingCommand
  | noSuchCommand (name : String)
  | configIsFolder (path : String)
  | missingSource
  | noSuchSource (path : String)
  | notReadable (parameter kind path : String)
  | extraWords (words : List String)
deriving Repr, DecidableEq, Inhabited

namespace UsageError

def message : UsageError → String
  | argument e => e.message
  | missingCommand => "Missing command."
  | noSuchCommand name =>
    "No such command " ++ Text.quote name ++ "." ++
      suggestion "commands" (Text.similarWords name (Action.all.map Action.label))
  | configIsFolder path =>
    "Invalid value for '--config': File " ++ Text.quote path ++ " is a directory."
  | missingSource => "Missing argument 'SOURCE'."
  | noSuchSource path =>
    "Invalid value for 'SOURCE': Path " ++ Text.quote path ++ " does not exist."
  | notReadable parameter kind path =>
    "Invalid value for '" ++ parameter ++ "': " ++ kind ++ " " ++ Text.quote path ++
      " is not readable."
  | extraWords words =>
    "Got unexpected extra argument" ++ (if words.length = 1 then " (" else "s (") ++
      " ".intercalate words ++ ")"

/-- Does the message stand alone? It does when an option and its value do not go together. -/
def standsAlone : UsageError → Bool
  | argument (.needsValue _) => true
  | argument (.takesNoValue _) => true
  | _ => false

/-- What is said about an error, a line for each text. -/
def report (s : Subject) (e : UsageError) : List String :=
  (if e.standsAlone then []
    else [s.usageLine, "Try '" ++ s.call ++ " --help' for help.", ""]) ++
  ["Error: " ++ e.message]

end UsageError

end ApiDoc.Command
