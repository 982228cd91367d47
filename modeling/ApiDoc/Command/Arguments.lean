import ApiDoc.Text.Quoted
import ApiDoc.Text.Similarity

/-!
# Arguments

The words of a command line are options, which start with a dash, and others. An option may be a
switch or take a value, which is the next word or stands behind an equals sign. Two dashes alone end
the options. A grammar says which options there are, and whether options may still follow the first
word that is none.
-/

namespace ApiDoc.Command

inductive OptionKind where
  /-- It stands alone. -/
  | switch
  /-- A value belongs to it. -/
  | valued
deriving Repr, DecidableEq, Inhabited

structure Grammar where
  /-- The options by name, dashes included. -/
  options : List (String × OptionKind)
  /-- May options follow other words? -/
  mixed : Bool
deriving Repr, DecidableEq, Inhabited

inductive Given where
  | switch (name : String)
  | value (name text : String)
deriving Repr, DecidableEq, Inhabited

def Given.name : Given → String
  | switch name => name
  | value name _ => name

/-- What stands behind a message when similar words may have been meant: a question for one, the
list of all, under the name of their kind, for several. -/
def suggestion (kind : String) (words : List String) : String :=
  match words with
  | [] => ""
  | [w] => " Did you mean " ++ Text.quote w ++ "?"
  | words =>
    let sorted := words.mergeSort fun a b => !decide (b < a)
    " (Possible " ++ kind ++ ": " ++ ", ".intercalate (sorted.map Text.quote) ++ ")"

inductive ArgumentError where
  /-- There is no such option, but there are similar ones. -/
  | noSuchOption (name : String) (similar : List String)
  | needsValue (name : String)
  | takesNoValue (name : String)
deriving Repr, DecidableEq, Inhabited

def ArgumentError.message : ArgumentError → String
  | noSuchOption name similar =>
    "No such option " ++ Text.quote name ++ "." ++ suggestion "options" similar
  | needsValue name => "Option " ++ Text.quote name ++ " requires an argument."
  | takesNoValue name => "Option " ++ Text.quote name ++ " does not take a value."

/-- Words sorted by a grammar: the options in order, and the other words. -/
structure Arguments where
  given : List Given := []
  words : List String := []
deriving Repr, DecidableEq, Inhabited

namespace Arguments

/-- One more option in front. -/
def addGiven (g : Given) (a : Arguments) : Arguments :=
  { a with given := g :: a.given }

def addWord (w : String) (a : Arguments) : Arguments :=
  { a with words := w :: a.words }

def hasSwitch (a : Arguments) (name : String) : Bool :=
  a.given.contains (.switch name)

def value? (a : Arguments) (name : String) : Option String :=
  (a.given.filterMap fun g => match g with
    | .value n text => if n = name then some text else none
    | .switch _ => none).getLast?

end Arguments

/-- Does a word start with a dash and go on? -/
def isOption (w : String) : Bool :=
  match w.toList with
  | '-' :: _ :: _ => true
  | _ => false

/-- The name of an option and the value behind its first equals sign. -/
def splitValue (w : String) : String × Option String :=
  match w.toList.dropWhile (· != '=') with
  | [] => (w, none)
  | _ :: value => (String.ofList (w.toList.takeWhile (· != '=')), some (String.ofList value))

/-- The error of an unknown option. Behind two dashes the whole name counts, and similar options are
looked for; behind a single dash only the first letter counts. -/
def Grammar.unknownOption (g : Grammar) (w : String) : ArgumentError :=
  match w.toList with
  | '-' :: '-' :: _ =>
    let name := (splitValue w).1
    .noSuchOption name (Text.similarWords name (g.options.map Prod.fst))
  | cs => .noSuchOption (String.ofList (cs.take 2)) []

/-- Sort words by a grammar. The first word that does not fit is reported. -/
def Grammar.read (g : Grammar) : List String → Except ArgumentError Arguments
  | [] => .ok {}
  | w :: ws =>
    if w = "--" then .ok { words := ws }
    else if isOption w then
      let (name, attached) := splitValue w
      match g.options.lookup name with
      | none => .error (g.unknownOption w)
      | some .switch =>
        match attached with
        | some _ => .error (.takesNoValue name)
        | none => (g.read ws).map (.addGiven (.switch name))
      | some .valued =>
        match attached with
        | some text => (g.read ws).map (.addGiven (.value name text))
        | none =>
          match ws with
          | [] => .error (.needsValue name)
          | text :: ws => (g.read ws).map (.addGiven (.value name text))
    else if g.mixed then (g.read ws).map (.addWord w)
    else .ok { words := w :: ws }

end ApiDoc.Command
