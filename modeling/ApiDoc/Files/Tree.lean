import ApiDoc.Files.Path
import ApiDoc.Text.Quoted

/-!
# File trees

A file tree says for each place below the root whether there is a folder or a file, and what is in
the file: its bytes, unless the system refuses to open it. Folders are created and files written as
an operating system does it: a path is followed name by name, and what is in the way is reported
with the path as it was given.
-/

namespace ApiDoc.Files

/-- Why the system does not open a file, with its own number for that. -/
structure Refusal where
  number : Nat
  text : String
deriving Repr, DecidableEq, Inhabited

/-- Is the file there but not for this user? Such files are turned away before they are opened. -/
def Refusal.isDenial (r : Refusal) : Bool :=
  r.number == 13

/-- A file that cannot be opened can be neither read nor written. -/
abbrev Content := Except Refusal ByteArray

inductive Entry where
  | folder
  | file (content : Content)
deriving Inhabited

instance : DecidableEq Entry
  | .folder, .folder => isTrue rfl
  | .folder, .file _ => isFalse nofun
  | .file _, .folder => isFalse nofun
  | .file (.ok _), .file (.error _) => isFalse nofun
  | .file (.error _), .file (.ok _) => isFalse nofun
  | .file (.error r), .file (.error s) =>
    if h : r = s then isTrue (h ▸ rfl)
    else isFalse (by rintro ⟨⟩; exact h rfl)
  | .file (.ok a), .file (.ok b) =>
    if h : a.data.toList = b.data.toList then
      isTrue (by
        obtain ⟨⟨x⟩⟩ := a
        obtain ⟨⟨y⟩⟩ := b
        cases h
        rfl)
    else isFalse (by rintro ⟨⟩; exact h rfl)

/-- What is in the way of an operation. -/
inductive Fault where
  | notFound
  | alreadyThere
  | notFolder
  | isFolder
  | nameTooLong
  | embeddedNul
  | refused (r : Refusal)
deriving Repr, DecidableEq, Inhabited

namespace Fault

def number : Fault → Nat
  | notFound => 2
  | alreadyThere => 17
  | notFolder => 20
  | isFolder => 21
  | nameTooLong => 36
  | embeddedNul => 22
  | refused r => r.number

def text : Fault → String
  | notFound => "No such file or directory"
  | alreadyThere => "File exists"
  | notFolder => "Not a directory"
  | isFolder => "Is a directory"
  | nameTooLong => "File name too long"
  | embeddedNul => "embedded null byte"
  | refused r => r.text

end Fault

structure FileError where
  fault : Fault
  path : String
deriving Repr, DecidableEq, Inhabited

def FileError.message (e : FileError) : String :=
  if e.fault = .embeddedNul then e.fault.text
  else "[Errno " ++ toString e.fault.number ++ "] " ++ e.fault.text ++ ": " ++ Text.quote e.path

/-- Places, as lists of names below the root, with what is there. -/
structure Tree where
  entries : List (List String × Entry) := []
deriving DecidableEq, Inhabited

namespace Tree

def find? (place : List String) : List (List String × Entry) → Option Entry
  | [] => none
  | (p, e) :: rest => if place = p then some e else find? place rest

/-- What is at a place; the root is a folder. -/
def entry? (t : Tree) (place : List String) : Option Entry :=
  if place.isEmpty then some .folder else find? place t.entries

/-- Put an entry at a place, in place of the one that is there. -/
def set (t : Tree) (place : List String) (e : Entry) : Tree :=
  ⟨(place, e) :: t.entries.filter fun x => x.1 ≠ place⟩

/-- Put a folder at a place and at all places above it. -/
def withFolders (t : Tree) (place : List String) : Tree :=
  (List.range place.length).foldl (fun t n => t.set (place.take (n + 1)) .folder) t

/-- Put a file at a place, with the folders above it. -/
def withFile (t : Tree) (place : List String) (content : Content) : Tree :=
  (t.withFolders place.dropLast).set place (.file content)

/-! ## Following paths -/

/-- The length, in bytes, of the longest name. -/
def maxNameLength : Nat := 255

/-- Follow names from a folder. Each step needs a folder to start from; the place it ends at may be
empty. -/
def follow (t : Tree) (place : List String) : List String → Except Fault (List String)
  | [] => .ok place
  | name :: names =>
    match t.entry? place with
    | none => .error .notFound
    | some (.file _) => .error .notFolder
    | some .folder =>
      if name = ".." then t.follow place.dropLast names
      else if name = "." then t.follow place names
      else if maxNameLength < name.utf8ByteSize then .error .nameTooLong
      else t.follow (place ++ [name]) names

/-- Names with a null character cannot be asked for at all. -/
def hasNul (names : List String) : Bool :=
  names.any fun name => name.toList.contains (Char.ofNat 0)

/-- The place that a path leads to from a current folder. -/
def locate (t : Tree) (cwd : List String) (p : Path) : Except Fault (List String) :=
  if hasNul p.names then .error .embeddedNul
  else t.follow (if p.isAbsolute then [] else cwd) p.names

def status (t : Tree) (cwd : List String) (p : Path) : Except Fault Entry :=
  match t.locate cwd p with
  | .error f => .error f
  | .ok place =>
    match t.entry? place with
    | none => .error .notFound
    | some e => .ok e

def pathExists (t : Tree) (cwd : List String) (p : Path) : Bool :=
  (t.status cwd p).isOk

def isFolder (t : Tree) (cwd : List String) (p : Path) : Bool :=
  match t.status cwd p with
  | .ok .folder => true
  | _ => false

/-- Does a text end in a slash, or in a slash and a dot? Then it asks for a folder. -/
def asksForFolder (s : String) : Bool :=
  match s.toList.reverse with
  | '/' :: _ => true
  | '.' :: '/' :: _ => true
  | _ => false

/-- What a text leads to when it is followed as it stands; an empty text leads nowhere. -/
def statusOfText (t : Tree) (cwd : List String) (s : String) : Except Fault Entry :=
  if s.isEmpty then .error .notFound
  else
    let p := Path.ofText s
    let names := if asksForFolder s then p.names ++ ["."] else p.names
    if hasNul names then .error .embeddedNul
    else
      match t.follow (if p.isAbsolute then [] else cwd) names with
      | .error f => .error f
      | .ok place =>
        match t.entry? place with
        | none => .error .notFound
        | some e => .ok e

/-- The bytes of the file that a path leads to. -/
def read (t : Tree) (cwd : List String) (p : Path) : Except FileError ByteArray :=
  match t.status cwd p with
  | .error f => .error ⟨f, p.text⟩
  | .ok .folder => .error ⟨.isFolder, p.text⟩
  | .ok (.file content) => content.mapError fun r => ⟨.refused r, p.text⟩

/-! ## Changing trees -/

/-- A tree after an operation, and what became of the operation. A failed operation may have changed
the tree before it failed. -/
abbrev Done (α : Type) := Tree × Except FileError α

def createFolder (t : Tree) (cwd : List String) (p : Path) : Except Fault Tree :=
  match t.locate cwd p with
  | .error f => .error f
  | .ok place => if (t.entry? place).isSome then .error .alreadyThere else .ok (t.set place .folder)

def createMissing (t : Tree) (cwd : List String) (p : Path) : Done Unit :=
  match t.createFolder cwd p with
  | .ok t' => (t', .ok ())
  | .error f => if t.isFolder cwd p then (t, .ok ()) else (t, .error ⟨f, p.text⟩)

/-- Create a folder, and those above it that are missing. A folder that is there already is fine. -/
def createFolders (t : Tree) (cwd : List String) (p : Path) : Done Unit :=
  match t.createFolder cwd p with
  | .error .notFound =>
    if h : p.names = [] then (t, .error ⟨.notFound, p.text⟩)
    else
      have : p.parent.names.length < p.names.length := by
        have := List.length_pos_iff.2 h
        simp [Path.parent]
        omega
      match createFolders t cwd p.parent with
      | (t', .error e) => (t', .error e)
      | (t', .ok ()) => t'.createMissing cwd p
  | _ => t.createMissing cwd p
termination_by p.names.length

/-- Write a file, over the one that is there. -/
def write (t : Tree) (cwd : List String) (p : Path) (content : ByteArray) : Done Unit :=
  match t.locate cwd p with
  | .error f => (t, .error ⟨f, p.text⟩)
  | .ok place =>
    match t.entry? place with
    | some .folder => (t, .error ⟨.isFolder, p.text⟩)
    | some (.file (.error r)) => (t, .error ⟨.refused r, p.text⟩)
    | _ => (t.set place (.file (.ok content)), .ok ())

/-- Write text at the end of a file, which is created if it is missing. -/
def append (t : Tree) (cwd : List String) (p : Path) (content : ByteArray) : Done Unit :=
  match t.status cwd p with
  | .ok (.file (.ok old)) => t.write cwd p (old ++ content)
  | _ => t.write cwd p content

/-! ## Listing -/

/-- The files below a place, as lists of names from there. -/
def filesBelow (t : Tree) (place : List String) : List (List String) :=
  t.entries.filterMap fun (q, e) =>
    match e with
    | .folder => none
    | .file _ =>
      if place.length < q.length ∧ q.take place.length = place then some (q.drop place.length)
      else none

end Tree

end ApiDoc.Files
