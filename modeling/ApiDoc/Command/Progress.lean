import ApiDoc.Analysis.Basic
import ApiDoc.Log.Format
import ApiDoc.Page.Site
import ApiDoc.Page.Template
import ApiDoc.Scan

/-!
# Progress

What each step of a run leaves in the log, as records by the part of the program that speaks.
-/

namespace ApiDoc.Command.Progress

open Files Log

def debug : Level := 10

def info : Level := 20

def warning : Level := 30

/-! ## Scanning -/

def scanLogger : String := "readem.scanning.scanner"

def scanning (source : String) (count : Nat) : Record :=
  ⟨scanLogger, info, "Scanning " ++ toString count ++ " files in " ++ source⟩

def rawType (t : TypeExpr) : List Record :=
  match t.node, TypeExpr.parseNode t.source with
  | none, .error e =>
    [⟨"readem.parsers.type_parser", debug,
      "Keeping raw type " ++ Text.quote t.source ++ ": " ++ e.message⟩]
  | _, _ => []

def commentRead (c : Comment) : List Record :=
  c.tags.flatMap (fun t => (t.type.map rawType).getD []) ++
  [⟨"readem.parsers.tag_parser", debug,
    "Parsed comment into " ++ toString c.content.length ++ " parts (" ++
      toString c.tags.length ++ " tags)"⟩]

def fileRead (f : FileComments) : List Record :=
  let count := toString f.comments.length
  f.comments.flatMap commentRead ++
  [⟨"readem.parsers.comment_extractor", debug, "Extracted " ++ count ++ " comments"⟩,
    ⟨scanLogger, debug, "Scanned " ++ f.file ++ ": " ++ count ++ " comments"⟩]

/-! ## Analysis -/

def analysisLogger : String := "readem.analysis.analyzer"

def warned (w : Analysis.Warning) : Record :=
  ⟨analysisLogger, warning, w.text⟩

/-- A function takes the place of an earlier one. -/
def redefined (s : Analysis.State) (file : String) (d : Analysis.Draft) : List Record :=
  match d.function with
  | none => []
  | some f =>
    if s.functions.contains f.name then
      [⟨analysisLogger, debug, "Function " ++ f.name ++ " redefined in " ++ file⟩]
    else []

/-- The comments of a file are taken into the model. -/
def commentsAnalyzed (limit : Analysis.Limit) (file : String) (s : Analysis.State)
    (active : Option String) : List Comment → List Record
  | [] => []
  | c :: cs =>
    let (t, next) := s.addComment limit file active c
    (t.warnings.drop s.warnings.length).map warned ++
      redefined s file (Analysis.Draft.ofComment c).1 ++
      commentsAnalyzed limit file t next cs

def filesAnalyzed (limit : Analysis.Limit) (s : Analysis.State) : List FileComments → List Record
  | [] => []
  | f :: fs =>
    commentsAnalyzed limit f.file s none f.comments ++ filesAnalyzed limit (s.addFile limit f) fs

/-- The remarks about the first comment of all files, up to where its subjects are counted. -/
def firstDraft (files : List FileComments) : Option (List Record) :=
  (files.flatMap fun f => f.comments.map fun c => (f.file, c)).head?.map fun (file, c) =>
    (Analysis.Draft.ofComment c).2.map fun i => warned ⟨i, c.source, file⟩

def analyzed (fileCount : Nat) (s : Analysis.State) : Record :=
  ⟨analysisLogger, info,
    "Analyzed " ++ toString fileCount ++ " files: " ++ toString s.classes.size ++
      " classes, " ++ toString s.functions.size ++ " functions, " ++
      toString s.warnings.length ++ " warnings"⟩

/-! ## Pages -/

def templateLogger : String := "readem.output.template_manager"

def pageLogger : String := "readem.output.markdown"

def templatesReady (folder : String) : Record :=
  ⟨templateLogger, debug, "Template manager initialized with: " ++ folder⟩

def rendered (t : Page.Template) (page : String) : Record :=
  ⟨templateLogger, debug,
    "Rendered template " ++ t.fileName ++ " (" ++ toString page.length ++ " chars)"⟩

/-- The task of one class: its page is rendered once its folder is there, and then written. -/
def pageTask (style : Page.Style) (docs : Docs) (outputRoot : Path) (t : Tree) (c : ClassDoc) :
    List Record :=
  let p := outputRoot.join (Page.pagePath style.cwd docs c)
  match (t.createFolders style.cwd p.parent).2 with
  | .error _ => []
  | .ok () =>
    rendered .classPage (Page.renderClass style docs c) ::
      match (Page.writeClass style docs outputRoot t c).2 with
      | .error _ => []
      | .ok p => [⟨pageLogger, debug, "Wrote class page: " ++ p.text⟩]

def pageTasks (style : Page.Style) (docs : Docs) (outputRoot : Path) (t : Tree) :
    List ClassDoc → List Record
  | [] => []
  | c :: cs =>
    pageTask style docs outputRoot t c ++
      pageTasks style docs outputRoot (Page.writeClass style docs outputRoot t c).1 cs

def pagesWritten (count : Nat) (outputRoot : Path) : Record :=
  ⟨pageLogger, info, "Wrote " ++ toString count ++ " class pages to " ++ outputRoot.text⟩

def navRendered (style : Page.Style) (docs : Docs) : Record :=
  rendered .navigation (Page.renderNav style.cwd docs "" "")

def indexRendered (style : Page.Style) (docs : Docs) (title : String) : List Record :=
  [navRendered style docs,
    rendered .index (Page.indexPage title (Page.renderNav style.cwd docs "" ""))]

def indexWritten (p : Path) (docs : Docs) : Record :=
  ⟨pageLogger, info,
    "Wrote index: " ++ p.text ++ " (" ++ toString docs.classes.size ++ " classes)"⟩

end ApiDoc.Command.Progress
