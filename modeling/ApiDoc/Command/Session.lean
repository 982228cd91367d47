import ApiDoc.Command.Usage
import ApiDoc.Data.Unshowable
import ApiDoc.Log.Basic
import ApiDoc.Scan
import ApiDoc.Settings.Typed
import ApiDoc.Text.Styling

/-!
# Sessions

What a run of the program can see and change: the files, the log, and what it has printed. A run
ends with a status, or it breaks off with a cause that the command line does not report by itself.
-/

namespace ApiDoc.Command

open Files

/-- What a run finds and does not change. -/
structure Place where
  /-- The current folder, as names below the root. -/
  cwd : List String
  /-- The folder of the page templates, as the log names it. -/
  templates : String := "templates"
  /-- The encodings beside those that are written out. -/
  codecs : Text.Codecs := fun _ => none
  /-- The order in which the reads of files complete. -/
  schedule : Scan.Schedule := List.finRange
  /-- The order in which the pages of classes are written. -/
  order : List ClassDoc → List ClassDoc := id

/-- The state of a run. -/
structure Session where
  /-- The files, and what has been printed for the reader of errors. -/
  sink : Log.Sink
  log : Log.State := {}
  /-- What has been printed as the result. -/
  output : String := ""

/-- A cause that breaks off a run. -/
inductive Crash where
  | settings (f : Settings.Fault)
  | file (e : FileError)
  | decode (e : Text.DecodeError)
  | misuse (m : Settings.Misuse)
  | log (e : Log.SetupError)
  | scan (e : ScanError)
  | unshowable (u : Data.Unshowable)
deriving Repr, DecidableEq, Inhabited

def Crash.message : Crash → String
  | settings f => f.message
  | file e => e.message
  | decode e => e.message
  | misuse m => m.message
  | log e => e.message
  | scan e => e.message
  | unshowable u => u.message

inductive Ending where
  | exit (code : Nat)
  | crash (cause : Crash)
deriving Repr, DecidableEq, Inhabited

def Ending.status : Ending → Nat
  | exit code => code
  | crash _ => 1

namespace Session

def tree (s : Session) : Tree := s.sink.tree

def withTree (s : Session) (t : Tree) : Session :=
  { s with sink := { s.sink with tree := t } }

def say (s : Session) (line : String) : Session :=
  { s with output := s.output ++ Text.withoutStyling line ++ "\n" }

/-- Print a line for the reader of errors, without styling. The log is not printed this way. -/
def complain (s : Session) (line : String) : Session :=
  { s with sink := { s.sink with console := s.sink.console ++ Text.withoutStyling line ++ "\n" } }

def record (s : Session) (r : Log.Record) : Session :=
  { s with sink := s.log.write s.sink r }

def records (s : Session) (rs : List Log.Record) : Session :=
  rs.foldl record s

def fail (s : Session) (message : String) : Session × Ending :=
  (s.complain ("Error: " ++ message), .exit 1)

def refuse (s : Session) (subject : Subject) (e : UsageError) : Session × Ending :=
  ((e.report subject).foldl complain s, .exit 2)

end Session

/-- A session after a step, and either the result of the step or the end of the run. -/
abbrev Step (α : Type) := Session × Except Ending α

def Step.ended {α : Type} (r : Session × Ending) : Step α :=
  (r.1, .error r.2)

def Step.crashed {α : Type} (s : Session) (cause : Crash) : Step α :=
  (s, .error (.crash cause))

def Step.andThen {α : Type} (r : Step α) (next : Session → α → Session × Ending) :
    Session × Ending :=
  match r with
  | (s, .error e) => (s, e)
  | (s, .ok a) => next s a

end ApiDoc.Command
