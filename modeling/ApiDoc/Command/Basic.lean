import ApiDoc.Command.Generate

/-!
# Runs

A run takes its words in this order: the options of the program, the settings, the log, and then
the words of the command. The first fault ends it.
-/

namespace ApiDoc.Command

open Files

/-! ## Settings and the log -/

/-- The record of a settings file that is not there. -/
def configMissing (p : Path) : Log.Record :=
  ⟨"readem.utils.config", Progress.warning,
    "Config file not found at " ++ p.text ++ ", using defaults"⟩

/-- The number of bytes that are read from a settings file at a time. -/
def pieceSize : Nat := 8192

/-- A byte that goes on with a character. -/
def isContinuation (b : UInt8) : Bool :=
  0x80 ≤ b && b < 0xC0

/-- Where the piece that holds a byte starts. What has been read of a character at the end of a piece
is read again with the next one. -/
def pieceStart (bytes : List UInt8) (index : Nat) : Nat :=
  let start := index / pieceSize * pieceSize
  if (bytes.drop start).head?.any isContinuation then
    start - (((bytes.take start).reverse.takeWhile isContinuation).length + 1)
  else start

/-- The place of a fault in the piece in which it is found. What is left of a character at the end of
the file is a piece of its own. -/
def placeInPiece (bytes : List UInt8) (e : Text.DecodeError) : Nat :=
  match e.reason with
  | .unexpectedEnd => 0
  | .invalidContinuation => e.position - min e.position (pieceStart bytes (e.position + e.width))
  | _ => e.position - pieceStart bytes e.position

/-- The text of a settings file. It is read piece by piece, and the place of a fault is told within
its piece. -/
def configText (bytes : ByteArray) : Except Text.DecodeError String :=
  let bytes := bytes.toList
  (Text.Charset.utf8.readText bytes).mapError fun e =>
    { e with position := placeInPiece bytes e }

/-- Read the settings: those of the program if no file is named, and the defaults if the file is
not there. -/
def loadSettings (place : Place) (file : Option String) (s : Session) : Step Settings :=
  match file.filter (!·.isEmpty) with
  | none => parse Settings.packagedText
  | some name =>
    let p := Path.ofText name
    match s.tree.status place.cwd p with
    | .error .nameTooLong => .crashed s (.file ⟨.nameTooLong, p.text⟩)
    | .error _ => (s.record (configMissing p), .ok {})
    | .ok .folder => .crashed s (.file ⟨.isFolder, p.text⟩)
    | .ok (.file (.error r)) => .crashed s (.file ⟨.refused r, p.text⟩)
    | .ok (.file (.ok bytes)) =>
      match configText bytes with
      | .error e => .crashed s (.decode e)
      | .ok text => parse text
where
  parse (text : String) : Step Settings :=
    match Settings.ofText text with
    | .error f => .crashed s (.settings f)
    | .ok settings => (s, .ok settings)

/-- Set up the log as the settings say: first the level counts, then the format, then the file. -/
def openLog (place : Place) (settings : Settings) (s : Session) : Step Unit :=
  match settings.levelName with
  | .error m => .crashed s (.misuse m)
  | .ok level =>
    match Log.levelOf level, settings.formatText with
    | .error e, _ => .crashed s (.log e)
    | .ok _, .error m => .crashed s (.misuse m)
    | .ok _, .ok format =>
      if !Log.isUsable format then .crashed s (.log (.badFormat format))
      else
        match settings.logPath with
        | .error m => .crashed s (.misuse m)
        | .ok file =>
          let r := Log.setup s.log s.sink place.cwd level format file
          let s := { s with log := r.state, sink := r.sink }
          match r.result with
          | .error e => .crashed s (.log e)
          | .ok () => (s, .ok ())

/-! ## Words -/

/-- What the first switch of a kind that ends a run prints. -/
def early? (subject : Subject) : List Given → Option String
  | [] => none
  | .switch "--version" :: _ => some (programName ++ ", version " ++ version)
  | .switch "--help" :: _ => some subject.help
  | _ :: rest => early? subject rest

/-- How a run ends at a word that cannot serve as the path for a parameter: it cannot be looked up at
all, or it leads to a file that is closed to this user. -/
def rejection? (place : Place) (subject : Subject) (parameter kind word : String) (s : Session) :
    Option (Session × Ending) :=
  match s.tree.statusOfText place.cwd word with
  | .error .embeddedNul => some (s, .crash (.file ⟨.embeddedNul, word⟩))
  | .ok (.file (.error r)) =>
    if r.isDenial then some (s.refuse subject (.notReadable parameter kind word)) else none
  | _ => none

/-- The options of the program: the settings file, and the words from the command on. -/
def programWords (place : Place) (args : List String) (s : Session) :
    Step (Option String × List String) :=
  match programGrammar.read args with
  | .error e => .ended (s.refuse none (.argument e))
  | .ok a =>
    match early? none a.given with
    | some text => .ended (s.say text, .exit 0)
    | none =>
      let config := a.value? "--config"
      match config.map fun file => (file, s.tree.statusOfText place.cwd file) with
      | some (file, .ok .folder) => .ended (s.refuse none (.configIsFolder file))
      | _ =>
        match config.bind fun file => rejection? place none "--config" "File" file s with
        | some ending => .ended ending
        | none => (s, .ok (config, a.words))

/-- What a command is asked for by its words. The output folder is looked at before the source. -/
def commandWords (place : Place) (action : Action) (args : List String) (s : Session) :
    Step Request :=
  let refuse (e : UsageError) : Step Request := .ended (s.refuse (some action) e)
  let reject? (parameter word : String) := rejection? place (some action) parameter "Path" word s
  match action.grammar.read args with
  | .error e => refuse (.argument e)
  | .ok a =>
    match early? (some action) a.given with
    | some text => .ended (s.say text, .exit 0)
    | none =>
      let outputDir := a.value? "--output-dir"
      match outputDir.bind (reject? "--output-dir"), a.words with
      | some ending, _ => .ended ending
      | none, [] => refuse .missingSource
      | none, source :: extra =>
        match reject? "SOURCE" source with
        | some ending => .ended ending
        | none =>
          if !(s.tree.statusOfText place.cwd source).isOk then refuse (.noSuchSource source)
          else if !extra.isEmpty then refuse (.extraWords extra)
          else
            (s, .ok {
              source
              outputDir
              singleStar := a.hasSwitch "--include-single-star"
              noIndex := a.hasSwitch "--no-index" })

/-! ## Runs -/

def perform (place : Place) (settings : Settings) (action : Action) (request : Request)
    (s : Session) : Session × Ending :=
  match action with
  | .generate => generate place settings request s
  | .scan => scan place settings request s

/-- Carry out the command with the given name and words. -/
def dispatch (place : Place) (config : Option String) (name : String) (args : List String)
    (s : Session) : Session × Ending :=
  match Action.ofLabel? name with
  | some action =>
    (loadSettings place config s).andThen fun s settings =>
    (openLog place settings s).andThen fun s _ =>
    (commandWords place action args s).andThen fun s request =>
      perform place settings action request s
  | none =>
    -- A word with a dash in front is looked at as an option once more.
    let again := if isOption name then programWords place (name :: args) s
      else (s, .ok (none, []))
    again.andThen fun s _ => s.refuse none (.noSuchCommand name)

def run (place : Place) (args : List String) (s : Session) : Session × Ending :=
  if args.isEmpty then (s.complain (Subject.help none), .exit 2)
  else
    (programWords place args s).andThen fun s (config, words) =>
      match words with
      | [] => s.refuse none .missingCommand
      | name :: rest => dispatch place config name rest s

end ApiDoc.Command
