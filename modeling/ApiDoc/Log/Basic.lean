import ApiDoc.Files.Tree
import ApiDoc.Log.Format

/-!
# The log

Records go to the handlers of the program's logger: always to the console, and to a file if one is
set. Before anything is set up, warnings and worse go to the console as bare messages. A new set-up
drops the old handlers first, so a set-up that fails leaves none.
-/

namespace ApiDoc.Log

open Files

/-- The name of the program's logger; its parts have names below it. -/
def programLogger : String := "readem"

inductive Target where
  | console
  | file (path : Path)
deriving Repr, DecidableEq, Inhabited

/-- A destination for records of a level and above. -/
structure Handler where
  target : Target
  level : Level
  format : String
deriving Repr, DecidableEq, Inhabited

structure State where
  /-- The level of the program's logger; zero inherits the general level. -/
  level : Level := 0
  handlers : List Handler := []
deriving Repr, DecidableEq, Inhabited

/-- The level of everything that has none of its own. -/
def generalLevel : Level := 30

inductive SetupError where
  | notALevel (text : String)
  /-- The name of the level names the table of the styles of formats. -/
  | styleTable
  | badFormat (format : String)
  | file (e : FileError)
deriving Repr, DecidableEq, Inhabited

def SetupError.message : SetupError → String
  | notALevel text => "Unknown level: " ++ Text.quote text
  | styleTable =>
    "Level not an integer or a valid string: \x7b'%': (<class 'logging.PercentStyle'>, " ++
      "'%(levelname)s:%(name)s:%(message)s'), '\x7b': (<class 'logging.StrFormatStyle'>, " ++
      "'\x7blevelname\x7d:\x7bname\x7d:\x7bmessage\x7d'), '$': (<class " ++
      "'logging.StringTemplateStyle'>, '$\x7blevelname\x7d:$\x7bname\x7d:$\x7bmessage\x7d')\x7d"
  | badFormat format => "Invalid format '" ++ format ++ "' for '%' style"
  | file e => e.message

/-! ## Levels by name -/

/-- The capital of a letter: those of ASCII, and the two letters beyond it whose capital is in
ASCII. -/
def capital (c : Char) : Char :=
  if c == 'ı' then 'I' else if c == 'ſ' then 'S' else c.toUpper

/-- The level that a name stands for, in capitals or not; an unknown name stands for information.
Two names stand for something else than a level. -/
def levelOf (name : String) : Except SetupError Level :=
  match String.ofList (name.toList.map capital) with
  | "DEBUG" => .ok 10
  | "INFO" => .ok 20
  | "WARNING" => .ok 30
  | "WARN" => .ok 30
  | "ERROR" => .ok 40
  | "CRITICAL" => .ok 50
  | "FATAL" => .ok 50
  | "NOTSET" => .ok 0
  | "BASIC_FORMAT" => .error (.notALevel "%(levelname)s:%(name)s:%(message)s")
  | "_STYLES" => .error .styleTable
  | _ => .ok 20

/-! ## Writing records -/

/-- The files, what has been written to the console, and the time of day that lines show. -/
structure Sink where
  tree : Tree
  console : String := ""
  time : String := ""

/-- Write a line to a target. Lines for a file that has become unwritable are lost. -/
def Sink.writeLine (k : Sink) (target : Target) (line : String) : Sink :=
  match target with
  | .console => { k with console := k.console ++ line ++ "\n" }
  | .file p => { k with tree := (k.tree.append [] p (line ++ "\n").toUTF8).1 }

def isOurs (logger : String) : Bool :=
  logger == programLogger || (programLogger ++ ".").toList.isPrefixOf logger.toList

/-- The level from which records of a logger count. -/
def State.effectiveLevel (s : State) (logger : String) : Level :=
  if isOurs logger && s.level != 0 then s.level else generalLevel

def State.write (s : State) (k : Sink) (r : Record) : Sink :=
  if r.level < s.effectiveLevel r.logger then k
  else
    let handlers := if isOurs r.logger then s.handlers else []
    if handlers.isEmpty then
      if generalLevel ≤ r.level then k.writeLine .console r.message else k
    else
      handlers.foldl
        (fun k h =>
          if h.level ≤ r.level then k.writeLine h.target (formatRecord k.time h.format r) else k) k

/-! ## Setting up -/

/-- What a set-up leaves: the log, the files, and whether it went well. -/
structure Setup where
  state : State
  sink : Sink
  result : Except SetupError Unit

/-- Can records be written in a format? One that is not empty needs a field. -/
def isUsable (format : String) : Bool :=
  format.isEmpty || hasField format.toList

/-- Set up the log with a level by name, a format, and a file unless its name is empty. -/
def setup (s : State) (k : Sink) (cwd : List String) (level format file : String) : Setup :=
  let s := { s with handlers := [] }
  match levelOf level with
  | .error e => ⟨s, k, .error e⟩
  | .ok n =>
    let s := { s with level := n }
    if !isUsable format then ⟨s, k, .error (.badFormat format)⟩
    else
      let opened : Except SetupError (List Handler × Tree) :=
        if file.isEmpty then .ok ([], k.tree)
        else
          let p := (Path.ofText file).resolve cwd
          match k.tree.append cwd p ByteArray.empty with
          | (_, .error e) => .error (.file e)
          | (t, .ok ()) => .ok ([⟨.file p, n, format⟩], t)
      match opened with
      | .error e => ⟨s, k, .error e⟩
      | .ok (fileHandlers, tree) =>
        let s := { s with handlers := ⟨.console, n, format⟩ :: fileHandlers }
        let k := s.write { k with tree } ⟨programLogger, 10, "Logging initialized at level " ++ level⟩
        ⟨s, k, .ok ()⟩

end ApiDoc.Log
