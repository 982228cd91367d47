import ApiDoc.Analysis.Basic
import ApiDoc.Comment.Block
import ApiDoc.Settings.Basic

/-!
# Settings in use

A document may give a setting a value of any type. Here each setting is read as what it is used
for; a value of the wrong type is a misuse, which is met when the setting is first needed and not
before.
-/

namespace ApiDoc.Settings

/-- A setting of the wrong type, by the name of its type. The name for paths is the short one. -/
inductive Misuse where
  | charset (typeName : String)
  | workers (typeName : String)
  | excluded (typeName : String)
  /-- Something that cannot be a name stands in the list of names to leave out. -/
  | excludedItem (typeName : String)
  | limit (typeName : String)
  | outputDir (typeName : String)
  | indexFile (typeName : String)
  | logLevel (typeName : String)
  | logFormat (typeName : String)
  | logFile (typeName : String)
deriving Repr, DecidableEq, Inhabited

def Misuse.message : Misuse → String
  | charset t => "open() argument 'encoding' must be str or None, not " ++ t
  | workers t => "'<=' not supported between instances of '" ++ t ++ "' and 'int'"
  | excluded t => "'" ++ t ++ "' object is not iterable"
  | excludedItem t => "unhashable type: '" ++ t ++ "'"
  | limit t => "'>' not supported between instances of 'int' and '" ++ t ++ "'"
  | outputDir t => "expected str, bytes or os.PathLike object, not " ++ t
  | indexFile t => "unsupported operand type(s) for /: 'PosixPath' and '" ++ t ++ "'"
  | logLevel t => "'" ++ t ++ "' object has no attribute 'upper'"
  | logFormat t => "expected string or bytes-like object, got '" ++ t ++ "'"
  | logFile t => "expected str, bytes or os.PathLike object, not " ++ t

/-- The encoding of source files; an absent one is UTF-8. -/
def charsetName (s : Settings) : Except Misuse String :=
  match s.charset with
  | .text name => .ok name
  | .null => .ok "utf-8"
  | d => .error (.charset d.typeName)

/-- Which comments count, by the setting or by a switch of the command. -/
def commentMode (s : Settings) (singleStar : Bool) : Comment.Mode :=
  .ofSwitch (singleStar || s.includeSingleStar.isTruthy)

/-- The first value of a list that cannot be told apart by its text. -/
def unnameable? (items : List Data) : Option Data :=
  items.find? fun d => match d with
    | .list _ => true
    | .map _ => true
    | _ => false

def textsOf (items : List Data) : List String :=
  items.filterMap fun d => match d with
    | .text name => some name
    | _ => none

/-- The names to leave out. A text stands for its characters and a map for its keys. -/
def excludedNames (s : Settings) : Except Misuse (List String) :=
  if !s.excludePatterns.isTruthy then .ok []
  else
    match s.excludePatterns with
    | .list items =>
      match unnameable? items with
      | some d => .error (.excludedItem d.typeName)
      | none => .ok (textsOf items)
    | .text t => .ok (t.toList.map String.singleton)
    | .codes points =>
      .ok ((points.filter Nat.isValidChar).map fun n => String.singleton (Char.ofNat n))
    | .map entries => .ok (textsOf (entries.map Prod.fst))
    | d => .error (.excluded d.typeName)

/-- The greatest whole number up to a finite number. -/
def floor (x : Number.Binary64) : Int :=
  x.toQuotient.1.fdiv x.toQuotient.2

/-- The least whole number from a finite number on. -/
def ceiling (x : Number.Binary64) : Int :=
  -((-x.toQuotient.1).fdiv x.toQuotient.2)

/-- How many files may be read at a time; what is not finite leaves that open, unless it is
negative. -/
def workerCount (s : Settings) : Except Misuse (Option Int) :=
  match s.maxWorkers with
  | .null => .ok none
  | .bool b => .ok (some (if b then 1 else 0))
  | .int n => .ok (some n)
  | .real x =>
    if x.isFinite then .ok (some (ceiling x))
    else .ok (if x.isNegative && !x.isNaN then some (-1) else none)
  | d => .error (.workers d.typeName)

/-- The limit of subjects in one comment; what is not finite allows any number, unless it is
negative. -/
def subjectLimit (s : Settings) : Except Misuse Analysis.Limit :=
  match s.maxPrimaryTags with
  | .bool b => .ok (some (if b then 1 else 0))
  | .int n => .ok (some n)
  | .real x =>
    if x.isFinite then .ok (some (floor x))
    else .ok (if x.isNegative && !x.isNaN then some (-1) else none)
  | d => .error (.limit d.typeName)

/-- The output folder: the one of the command, unless it is empty, or else the setting. -/
def outputFolder (s : Settings) (given : Option String) : Except Misuse String :=
  match given.filter (!·.isEmpty) with
  | some folder => .ok folder
  | none =>
    match s.outputDir with
    | .text folder => .ok folder
    | d => .error (.outputDir d.shortTypeName)

def indexName (s : Settings) : Except Misuse String :=
  match s.indexFile with
  | .text name => .ok name
  | d => .error (.indexFile d.typeName)

/-- A text; what counts as nothing is empty, and anything else is a misuse. -/
def textOrNothing (misuse : Data → Misuse) (d : Data) : Except Misuse String :=
  if !d.isTruthy then .ok ""
  else
    match d with
    | .text t => .ok t
    | d => .error (misuse d)

/-- The name of the level of the log; a text that is not made of characters names none. -/
def levelName (s : Settings) : Except Misuse String :=
  match s.logLevel with
  | .text name => .ok name
  | .codes _ => .ok ""
  | d => .error (.logLevel d.typeName)

def formatText (s : Settings) : Except Misuse String :=
  textOrNothing (fun d => .logFormat d.typeName) s.logFormat

def logPath (s : Settings) : Except Misuse String :=
  textOrNothing (fun d => .logFile d.shortTypeName) s.logFile

end ApiDoc.Settings
