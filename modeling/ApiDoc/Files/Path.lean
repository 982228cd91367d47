import ApiDoc.Text.Lines

/-!
# Paths

A path is a root, which is empty for relative paths, and the names below it. Reading a path drops
empty names and single dots, and keeps double dots. Beside these lexical paths there are the paths
without double dots that a current folder turns them into; they are lists of names below the root.
-/

namespace ApiDoc.Files

open Text

/-- A path in its lexical form. -/
structure Path where
  /-- Empty, `/` or `//`. -/
  root : String := ""
  /-- The names, none of them empty or a single dot. -/
  names : List String := []
deriving Repr, DecidableEq, Inhabited

def splitSlashes (s : String) : List String :=
  (splitAt '/' s.toList).map String.ofList

def joinSlashes (names : List String) : String :=
  "/".intercalate names

/-- The names of a path's text: empty pieces and single dots say nothing. -/
def namesOf (s : String) : List String :=
  (splitSlashes s).filter fun n => n ≠ "" ∧ n ≠ "."

def isAbsoluteText (s : String) : Bool :=
  s.toList.head? == some '/'

namespace Path

/-- The root of a path's text: exactly two slashes in front are a root of their own. -/
def rootOf (s : String) : String :=
  match s.toList with
  | '/' :: '/' :: '/' :: _ => "/"
  | '/' :: '/' :: _ => "//"
  | '/' :: _ => "/"
  | _ => ""

def ofText (s : String) : Path :=
  ⟨rootOf s, namesOf s⟩

/-- The text of a path; the empty relative path is a single dot. -/
def text (p : Path) : String :=
  if p.root.isEmpty && p.names.isEmpty then "." else p.root ++ joinSlashes p.names

def isAbsolute (p : Path) : Bool :=
  !p.root.isEmpty

/-- The root, if there is one, and the names. -/
def parts (p : Path) : List String :=
  if p.isAbsolute then p.root :: p.names else p.names

/-- The path with further names at its end. -/
def below (p : Path) (names : List String) : Path :=
  { p with names := p.names ++ names }

/-- One path below another; an absolute path stands for itself. -/
def join (p q : Path) : Path :=
  if q.isAbsolute then q else p.below q.names

def parent (p : Path) : Path :=
  { p with names := p.names.dropLast }

end Path

/-! ## Collapsing double dots -/

/-- One name taken into the list of names below the root, latest first. -/
def collapseStep (above : List String) (name : String) : List String :=
  if name = ".." then above.tail else name :: above

/-- Names below the root with the double dots collapsed; above the root there is nothing. -/
def collapse (names : List String) : List String :=
  (names.foldl collapseStep []).reverse

/-- The names below the root of a path seen from a current folder. -/
def absoluteNames (cwd : List String) (s : String) : List String :=
  collapse (if isAbsoluteText s then namesOf s else cwd ++ namesOf s)

/-- The absolute path without double dots that a path stands for. -/
def Path.resolve (cwd : List String) (p : Path) : Path :=
  ⟨"/", collapse (if p.isAbsolute then p.names else cwd ++ p.names)⟩

/-! ## From one folder to another -/

/-- How many names two lists have in common at their start. -/
def commonLength : List String → List String → Nat
  | a :: as, b :: bs => if a = b then commonLength as bs + 1 else 0
  | _, _ => 0

/-- The steps from one folder to a place, both below the root: up to the last folder they share,
then down. -/
def stepsBetween (start target : List String) : List String :=
  let n := commonLength start target
  List.replicate (start.length - n) ".." ++ target.drop n

/-- The path of `target` as seen from the folder `start`. -/
def relativePath (cwd : List String) (target start : String) : Path :=
  ⟨"", stepsBetween (absoluteNames cwd start) (absoluteNames cwd target)⟩

/-- The folder part of a path's text: all up to the last slash, without slashes at its end unless
there is nothing else. -/
def folderText (s : String) : String :=
  match splitSlashes s with
  | [] => ""
  | pieces =>
    let head := joinSlashes (pieces.dropLast ++ [""])
    if pieces.length = 1 then ""
    else if head.toList.all (· == '/') then head
    else String.ofList ((head.toList.reverse.dropWhile (· == '/')).reverse)

/-- Two texts of paths put together; a second one that is absolute stands for itself. -/
def joinTexts (base s : String) : String :=
  if isAbsoluteText s then s
  else if base.isEmpty || base.toList.getLast? == some '/' then base ++ s
  else base ++ "/" ++ s

/-! ## Rejecting names -/

/-- Is no part of the path among the names to leave out? -/
def isIncluded (excluded : List String) (s : String) : Bool :=
  !(Path.ofText s).parts.any excluded.contains

end ApiDoc.Files
