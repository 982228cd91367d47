import ApiDoc.Command.Sources
import ApiDoc.Comment.Stored
import ApiDoc.Data.Json
import ApiDoc.Page.Site

/-!
# The commands

One command writes the pages of the classes in a source, the other prints the comments found there.
Pages are touched only after the whole source has been read.
-/

namespace ApiDoc.Command

open Files

structure Request where
  source : String
  /-- The output folder, if it is not left to the settings. -/
  outputDir : Option String := none
  singleStar : Bool := false
  noIndex : Bool := false
deriving Repr, DecidableEq, Inhabited

def writeEnding (s : Session) (outputDir : String) (e : FileError) : Session × Ending :=
  if e.fault = .embeddedNul then (s, .crash (.file e))
  else s.fail ("Writing to " ++ outputDir ++ " failed: " ++ e.message)

def analyze (settings : Settings) (files : List FileComments) (s : Session) :
    Step Analysis.State :=
  match settings.subjectLimit, Progress.firstDraft files with
  | .error m, some remarks => .crashed (s.records remarks) (.misuse m)
  | .error _, none => finish none
  | .ok limit, _ => finish limit
where
  finish (limit : Analysis.Limit) : Step Analysis.State :=
    let state := Analysis.State.addFiles limit {} files
    let s := s.records (Progress.filesAnalyzed limit {} files)
    (s.record (Progress.analyzed files.length state), .ok state)

/-- The task of a class whose page would show what cannot be shown: its folder is made, and if only
the writing fails, the page is left empty. -/
def leavePage (style : Page.Style) (docs : Docs) (outputRoot : Path) (u : Data.Unshowable)
    (s : Session) (c : ClassDoc) : Session :=
  let p := outputRoot.join (Page.pagePath style.cwd docs c)
  match s.tree.createFolders style.cwd p.parent, u with
  | (t, .error _), _ => s.withTree t
  | (t, .ok ()), .longNumber => s.withTree t
  | (t, .ok ()), .halves _ _ _ =>
    (s.withTree (t.write style.cwd p .empty).1).record
      (Progress.rendered .classPage (Page.renderClass style docs c))

def writePagesOf (order : List ClassDoc) (style : Page.Style) (docs : Docs) (outputDir : String)
    (s : Session) : Step (List Path) :=
  let outputRoot := Page.outputFolder style.cwd outputDir
  let (t, result) := Page.renderIn order style docs outputDir none s.tree
  let tasks := match s.tree.createFolders style.cwd outputRoot with
    | (_, .error _) => []
    | (t, .ok ()) => Progress.pageTasks style docs outputRoot t order
  let s := (s.withTree t).records tasks
  match result with
  | .error (.file e) => .ended (writeEnding s outputDir e)
  | .error .noWorkers => .crashed s (.scan .noWorkers)
  | .ok paths => (s, .ok paths)

/-- Write the page of each class. Pages that would show a word that cannot be shown fail, after the
others have been written. -/
def writePages (place : Place) (missing : Data) (docs : Docs) (outputDir : String) (s : Session) :
    Step Unit :=
  let style : Page.Style := { missing := missing.display, cwd := place.cwd }
  let outputRoot := Page.outputFolder place.cwd outputDir
  let order := place.order docs.classes.values
  let fails (c : ClassDoc) : Bool := missing.unshowable?.isSome && Page.showsMissing c
  match writePagesOf (order.filter (!fails ·)) style docs outputDir s with
  | (s, .error e) => (s, .error e)
  | (s, .ok paths) =>
    match missing.unshowable?, docs.classes.values.find? fails with
    | some u, some c =>
      .crashed ((order.filter fails).foldl (leavePage style docs outputRoot u) s)
        (.unshowable (u.behind (Page.missingPlace style docs c)))
    | _, _ => (s.record (Progress.pagesWritten paths.length outputRoot), .ok ())

/-- Write the index page. A title that cannot be shown makes it fail: one with too long a number
before the page is opened, any other after that. -/
def writeIndex (settings : Settings) (style : Page.Style) (docs : Docs) (outputDir : String)
    (s : Session) : Step Unit :=
  match settings.indexName with
  | .error m => .crashed s (.misuse m)
  | .ok name =>
    let title := settings.indexTitle.display
    match settings.indexTitle.unshowable? with
    | some .longNumber =>
      .crashed (s.record (Progress.navRendered style docs)) (.unshowable .longNumber)
    | u =>
      let (t, result) := if u.isSome then Page.writeIndexText style.cwd outputDir name "" s.tree
        else Page.writeIndex style docs outputDir name title s.tree
      let s := (s.withTree t).records (Progress.indexRendered style docs title)
      match result, u with
      | .error e, _ => .ended (writeEnding s outputDir e)
      | .ok _, some u => .crashed s (.unshowable (u.behind Page.titlePlace))
      | .ok p, none => (s.record (Progress.indexWritten p docs), .ok ())

/-- Write the pages and, unless it is not wanted, the index. -/
def writeSite (place : Place) (settings : Settings) (noIndex : Bool) (docs : Docs)
    (outputDir : String) (s : Session) : Step Unit :=
  match writePages place settings.missingType docs outputDir s with
  | (s, .error e) => (s, .error e)
  | (s, .ok ()) =>
    if noIndex then (s, .ok ()) else writeIndex settings { cwd := place.cwd } docs outputDir s

def generate (place : Place) (settings : Settings) (request : Request) (s : Session) :
    Session × Ending :=
  (readSources place settings request.singleStar request.source s).andThen fun s files =>
  (analyze settings files s).andThen fun s state =>
    let docs := state.docs (Scan.sourceFolder s.tree place.cwd request.source)
    let s := s.say ("Found " ++ toString docs.classes.size ++ " classes and " ++
      toString docs.functions.size ++ " functions")
    let s := s.record (Progress.templatesReady place.templates)
    match settings.outputFolder request.outputDir with
    | .error m => (s, .crash (.misuse m))
    | .ok outputDir =>
      (writeSite place settings request.noIndex docs outputDir s).andThen fun s _ =>
        let s := if state.warnings.isEmpty then s
          else s.complain (toString state.warnings.length ++ " warnings, see the log for details")
        (s.say ("Markdown documentation written to " ++ outputDir), .exit 0)

def scan (place : Place) (settings : Settings) (request : Request) (s : Session) :
    Session × Ending :=
  (readSources place settings request.singleStar request.source s).andThen fun s files =>
    (s.say ((Data.list (files.map FileComments.toData)).toJson (.indented 0)), .exit 0)

end ApiDoc.Command
