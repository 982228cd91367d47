import ApiDoc.Comment.Block
import ApiDoc.Files.Tree
import ApiDoc.Text.Charset

/-!
# Scanning folders

The files below a folder are listed in the order of their paths, those that a filter rejects are
left out, and each of the others is read and searched for doc comments. The reads may complete in
any order: each file is announced when its read completes, and its comments are put at the place of
the file. So the result is in the order of the paths, and the first read to fail ends the scan with
its error.
-/

namespace ApiDoc

open Files

inductive ScanError where
  | sourceMissing (source : String)
  | file (e : FileError)
  /-- The bytes of a file do not fit the encoding. -/
  | decode (e : Text.DecodeError)
  /-- An encoding fails in a way of its own. -/
  | codec (message : String)
  | unknownCharset (name : String)
  | nulInCharset
  | noWorkers
deriving Repr, DecidableEq, Inhabited

def ScanError.message : ScanError → String
  | sourceMissing source => "Source not found: " ++ source
  | file e => e.message
  | decode e => e.message
  | codec message => message
  | unknownCharset name =>
    if Text.Charset.isByteCoding name then
      "'" ++ name ++ "' is not a text encoding; use codecs.open() to handle arbitrary codecs"
    else "unknown encoding: " ++ name
  | nulInCharset => "embedded null character"
  | noWorkers => "max_workers must be greater than 0"

/-- The error of a scan in which the bytes of a file could not be decoded. -/
def ScanError.ofCodec : Text.CodecError → ScanError
  | .bytes e => .decode e
  | .other message => .codec message

namespace Scan

structure Options where
  charset : String := "utf-8"
  /-- The encodings beside those that are written out. -/
  codecs : Text.Codecs := fun _ => none
  mode : Comment.Mode := .doc
  /-- Names of folders and files to leave out. -/
  excluded : List String := []
  /-- How many files may be read at a time; `none` leaves that open. -/
  workers : Option Int := none
deriving Inhabited

def commentsIn (options : Options) (bytes : ByteArray) : Except ScanError (List Comment) :=
  match options.codecs.find? options.charset with
  | none => .error (.unknownCharset options.charset)
  | some codec =>
    match codec.readText bytes.toList with
    | .error e => .error (.ofCodec e)
    | .ok text => .ok (Comment.extract options.mode text)

def scanFile (options : Options) (t : Tree) (cwd : List String) (file : String) :
    Except ScanError (List Comment) :=
  if options.charset.toList.contains (Char.ofNat 0) then .error .nulInCharset
  else
    match t.read cwd ((Path.ofText file).resolve cwd) with
    | .error e => .error (.file e)
    | .ok bytes => commentsIn options bytes

/-- The files below a folder, as paths that start with it, in the order of their texts; a file
stands for itself. -/
def listFiles (t : Tree) (cwd : List String) (source : String) :
    Except ScanError (List String) :=
  let p := Path.ofText source
  match t.locate cwd p with
  | .error _ => .error (.sourceMissing source)
  | .ok place =>
    match t.entry? place with
    | none => .error (.sourceMissing source)
    | some (.file _) => .ok [p.text]
    | some .folder =>
      let paths := (t.filesBelow place).map fun names => (p.below names).text
      .ok (paths.mergeSort fun a b => !decide (b < a))

def acceptedFiles (accepts : String → Bool) (t : Tree) (cwd : List String) (source : String) :
    Except ScanError (List String) :=
  match listFiles t cwd source with
  | .error e => .error e
  | .ok files => .ok (files.filter accepts)

/-- The files of a folder that are to be read. -/
def selectFiles (options : Options) (t : Tree) (cwd : List String) (source : String) :
    Except ScanError (List String) :=
  acceptedFiles (isIncluded options.excluded) t cwd source

/-! ## Reading the files -/

/-- What a scan announced and what came of it. -/
structure Run where
  /-- The files in the order in which their reads completed. -/
  announced : List FileComments
  result : Except ScanError (List FileComments)

/-- A scan while reads are under way. -/
structure Pending where
  announced : List FileComments := []
  /-- A place for the result of each file, empty until its read completes. -/
  results : List (Option FileComments)

def Pending.start (count : Nat) : Pending :=
  { results := List.replicate count none }

/-- The scan after a read: the file is announced and put at its place. -/
def Pending.put (p : Pending) (place : Nat) (f : FileComments) : Pending :=
  ⟨p.announced ++ [f], p.results.set place (some f)⟩

/-- The rest of a scan, with the reads completing in the given order up to the first that fails. -/
def completeReads (read : String → Except ScanError (List Comment)) (files : List String) :
    Pending → List (Fin files.length) → Run
  | p, [] => ⟨p.announced, .ok (p.results.filterMap id)⟩
  | p, i :: rest =>
    match read (files.get i) with
    | .error e => ⟨p.announced, .error e⟩
    | .ok comments => completeReads read files (p.put i ⟨files.get i, comments⟩) rest

/-- Read the given files, with the reads completing in the given order. -/
def readFiles (read : String → Except ScanError (List Comment)) (files : List String)
    (order : List (Fin files.length)) : Run :=
  completeReads read files (.start files.length) order

/-- For each number of files, the order in which their reads complete. -/
abbrev Schedule := (count : Nat) → List (Fin count)

/-- Scan the files of a folder that a filter accepts. -/
def scanAccepted (schedule : Schedule) (accepts : String → Bool) (options : Options) (t : Tree)
    (cwd : List String) (source : String) : Run :=
  match acceptedFiles accepts t cwd source with
  | .error e => ⟨[], .error e⟩
  | .ok files =>
    if options.workers.any (· ≤ 0) then ⟨[], .error .noWorkers⟩
    else readFiles (scanFile options t cwd) files (schedule files.length)

/-- Scan a folder but for the names to leave out. -/
def scanFolderIn (schedule : Schedule) (options : Options) (t : Tree) (cwd : List String)
    (source : String) : Run :=
  scanAccepted schedule (isIncluded options.excluded) options t cwd source

/-- Scan a folder with the reads completing in the order of the paths. -/
def scanFolder (options : Options) (t : Tree) (cwd : List String) (source : String) : Run :=
  scanFolderIn List.finRange options t cwd source

/-- The folder that the paths of a scan are given from: the source, or the folder of a source that
is a file. -/
def sourceFolder (t : Tree) (cwd : List String) (source : String) : String :=
  let p := Path.ofText source
  if t.isFolder cwd p then p.text else p.parent.text

end Scan

end ApiDoc
