import ApiDoc.Files.Tree
import ApiDoc.Page.Markdown
import ApiDoc.Text.Similarity

/-!
# The site

Where the page of each class goes, how pages refer to each other, and the writing of all of them.
A page lies below the output folder where the file of its class lies below the source folder. All
pages are written, each by a task of its own, before a failure of one of them is reported; the
tasks may run in any order.
-/

namespace ApiDoc.Page

open Files

/-- How pages are put together. -/
structure Style where
  /-- The word for an absent type. -/
  missing : String := "void"
  /-- The current folder, as names below the root. -/
  cwd : List String
deriving Repr, DecidableEq, Inhabited

/-! ## Places and references -/

/-- The path of a class's page below the output folder. -/
def pagePath (cwd : List String) (docs : Docs) (c : ClassDoc) : Path :=
  let folder := folderText c.file
  (relativePath cwd (if folder.isEmpty then "." else folder) docs.sourceFolder).join
    (Path.ofText (c.name ++ ".md"))

/-- How the page of a class refers to a parent: by a link if the parent has a page. -/
def parentReference (cwd : List String) (docs : Docs) (c : ClassDoc) (name : String) : String :=
  match docs.classes.get? name with
  | none => name
  | some parent =>
    let own := (pagePath cwd docs c).parent.text
    let target := (pagePath cwd docs parent).text
    "[" ++ name ++ "](" ++ (relativePath cwd target own).text ++ ")"

def renderClass (style : Style) (docs : Docs) (c : ClassDoc) : String :=
  classPage c (c.parents.map (parentReference style.cwd docs c)) style.missing

/-- Does the page of a class show the word for an absent type? -/
def showsMissing (c : ClassDoc) : Bool :=
  (c.properties.values.any fun p => p.type.isNone) || c.methods.values.any fun m => m.returns.isNone

/-- Where the page of a class first shows the word for an absent type: up to there it is the same
whatever the word is. -/
def missingPlace (style : Style) (docs : Docs) (c : ClassDoc) : Nat :=
  let page (word : String) := (renderClass { style with missing := word } docs c).toList
  Text.sharedFront (page "a") (page "b")

/-- The section of files directly in the source folder. -/
def rootSection : String := "."

/-- The section of a page: the first name of its path, if there is another one behind it. -/
def sectionOf (p : Path) : String :=
  match p.parts with
  | first :: _ :: _ => first
  | _ => rootSection

/-- The link to a page; a base path stands before it. -/
def linkTo (base : String) (p : Path) : String :=
  if base.isEmpty then p.text else joinTexts base p.text

/-- The links to all pages by section, sections in the order of their first class. -/
def sections (cwd : List String) (docs : Docs) (base : String) : Table (List Link) :=
  docs.classes.values.foldl
    (fun acc c =>
      let p := pagePath cwd docs c
      acc.insert (sectionOf p) ((acc.get? (sectionOf p)).getD [] ++ [⟨c.name, linkTo base p⟩]))
    .empty

def renderNav (cwd : List String) (docs : Docs) (pad base : String) : String :=
  navigation (sections cwd docs base) pad

/-! ## Writing -/

/-- The task of one class: create the folder of its page, then write the page. -/
def writeClass (style : Style) (docs : Docs) (outputRoot : Path) (t : Tree) (c : ClassDoc) :
    Tree.Done Path :=
  let p := outputRoot.join (pagePath style.cwd docs c)
  match t.createFolders style.cwd p.parent with
  | (t, .error e) => (t, .error e)
  | (t, .ok ()) =>
    match t.write style.cwd p (renderClass style docs c).toUTF8 with
    | (t, .error e) => (t, .error e)
    | (t, .ok ()) => (t, .ok p)

/-- Run the tasks of the given classes, and keep what became of each. -/
def writeAll (style : Style) (docs : Docs) (outputRoot : Path) (t : Tree) :
    List ClassDoc → Tree × List (String × Except FileError Path)
  | [] => (t, [])
  | c :: cs =>
    let (t, r) := writeClass style docs outputRoot t c
    let (t, rs) := writeAll style docs outputRoot t cs
    (t, (c.name, r) :: rs)

/-- The outcome of the task of a class. -/
def outcomeOf (name : String) : List (String × Except FileError Path) →
    Option (Except FileError Path)
  | [] => none
  | (n, r) :: rest => if n = name then some r else outcomeOf name rest

/-- The paths of the given classes, or the first failure among them. -/
def gather (outcomes : List (String × Except FileError Path)) :
    List ClassDoc → Except FileError (List Path)
  | [] => .ok []
  | c :: cs =>
    match outcomeOf c.name outcomes with
    | some (.error e) => .error e
    | some (.ok p) =>
      match gather outcomes cs with
      | .error e => .error e
      | .ok ps => .ok (p :: ps)
    | none => gather outcomes cs

inductive RenderError where
  | file (e : FileError)
  | noWorkers
deriving Repr, DecidableEq, Inhabited

/-- The folder that a destination stands for. -/
def outputFolder (cwd : List String) (destination : String) : Path :=
  (Path.ofText destination).resolve cwd

/-- Write all pages, the tasks in the given order of classes. The result lists the pages in the
order of the model. -/
def renderIn (order : List ClassDoc) (style : Style) (docs : Docs) (destination : String)
    (workers : Option Int) (t : Tree) : Tree × Except RenderError (List Path) :=
  let outputRoot := outputFolder style.cwd destination
  match t.createFolders style.cwd outputRoot with
  | (t, .error e) => (t, .error (.file e))
  | (t, .ok ()) =>
    if workers.any (· ≤ 0) then (t, .error .noWorkers)
    else
      let (t, outcomes) := writeAll style docs outputRoot t order
      (t, (gather outcomes docs.classes.values).mapError .file)

def render (style : Style) (docs : Docs) (destination : String) (workers : Option Int)
    (t : Tree) : Tree × Except RenderError (List Path) :=
  renderIn docs.classes.values style docs destination workers t

def writeIndexText (cwd : List String) (destination fileName text : String) (t : Tree) :
    Tree.Done Path :=
  let outputRoot := outputFolder cwd destination
  match t.createFolders cwd outputRoot with
  | (t, .error e) => (t, .error e)
  | (t, .ok ()) =>
    let p := outputRoot.join (Path.ofText fileName)
    match t.write cwd p text.toUTF8 with
    | (t, .error e) => (t, .error e)
    | (t, .ok ()) => (t, .ok p)

def writeIndex (style : Style) (docs : Docs) (destination fileName title : String) (t : Tree) :
    Tree.Done Path :=
  writeIndexText style.cwd destination fileName
    (indexPage title (renderNav style.cwd docs "" "")) t

end ApiDoc.Page
