import ApiDoc.Yaml.Value

/-!
# Settings

The settings of a run, read from a document with one map for each section. A setting that the
document does not mention has its default; one that it mentions has whatever value it gives, of any
type, and what a wrong type leads to shows where the setting is used.
-/

namespace ApiDoc

/-- The settings, section by section. -/
structure Settings where
  charset : Data := .text "utf-8"
  includeSingleStar : Data := .bool false
  excludePatterns : Data := .list []
  maxWorkers : Data := .null
  maxPrimaryTags : Data := .int 2
  outputDir : Data := .text "docs/api"
  indexFile : Data := .text "index.md"
  indexTitle : Data := .text "API Reference"
  missingType : Data := .text "void"
  logLevel : Data := .text "INFO"
  logFormat : Data := .text "%(asctime)s - %(name)s - %(levelname)s - %(message)s"
  logFile : Data := .null
deriving Repr, Inhabited

namespace Settings

inductive Fault where
  /-- The text is not a document. -/
  | document (f : Yaml.Fault)
  /-- The document or one of its sections is not a map but of the named type. -/
  | notMap (typeName : String)
deriving Repr, DecidableEq, Inhabited

def Fault.message : Fault → String
  | document f => f.message
  | notMap typeName => "'" ++ typeName ++ "' object has no attribute 'get'"

/-- A value that has to be a map. -/
def asMap (d : Data) : Except Fault Data :=
  match d with
  | .map entries => .ok (.map entries)
  | d => .error (.notMap d.typeName)

/-- A section of a document; one that is not there is empty. -/
def sectionOf (document : Data) (name : String) : Except Fault Data :=
  match document.get? name with
  | none => .ok (.map [])
  | some d => asMap d

def setting (fields : Data) (name : String) (otherwise : Data) : Data :=
  (fields.get? name).getD otherwise

/-- The settings of a document. An empty document has all defaults; of several sections of a wrong
type the analysis is reported first, then the output, the log and the scanner. -/
def ofData (document : Data) : Except Fault Settings := do
  let document ← if document.isTruthy then asMap document else pure (.map [])
  let analysis ← sectionOf document "analysis"
  let output ← sectionOf document "output"
  let logging ← sectionOf document "logging"
  let scanner ← sectionOf document "scanner"
  let defaults : Settings := {}
  return {
    charset := setting scanner "charset" defaults.charset
    includeSingleStar := setting scanner "include_single_star" defaults.includeSingleStar
    excludePatterns := setting scanner "exclude_patterns" defaults.excludePatterns
    maxWorkers := setting scanner "max_workers" defaults.maxWorkers
    maxPrimaryTags := setting analysis "max_primary_tags" defaults.maxPrimaryTags
    outputDir := setting output "output_dir" defaults.outputDir
    indexFile := setting output "index_file" defaults.indexFile
    indexTitle := setting output "index_title" defaults.indexTitle
    missingType := setting output "missing_type" defaults.missingType
    logLevel := setting logging "level" defaults.logLevel
    logFormat := setting logging "format" defaults.logFormat
    logFile := setting logging "file" defaults.logFile }

def ofText (s : String) : Except Fault Settings :=
  match Yaml.read s with
  | .error f => .error (.document f)
  | .ok document => ofData document

def values (s : Settings) : List Data :=
  [s.charset, s.includeSingleStar, s.excludePatterns, s.maxWorkers, s.maxPrimaryTags, s.outputDir,
    s.indexFile, s.indexTitle, s.missingType, s.logLevel, s.logFormat, s.logFile]

/-- How deep values are compared. -/
def comparisonDepth : Nat := 1000

def isDefault (s : Settings) : Bool :=
  (s.values.zip ({} : Settings).values).all fun p => Data.sameWithin comparisonDepth p.1 p.2

/-- The settings document that comes with the program. -/
def packagedText : String :=
  "scanner:\n" ++
  "  charset: utf-8\n" ++
  "  include_single_star: false\n" ++
  "  exclude_patterns:\n" ++
  "    - node_modules\n" ++
  "    - .git\n" ++
  "    - __pycache__\n" ++
  "  max_workers: 8\n" ++
  "\n" ++
  "analysis:\n" ++
  "  # Primary tags (@class, @method, @function, @constructor, @property)\n" ++
  "  # tolerated in one comment before a warning is logged\n" ++
  "  max_primary_tags: 2\n" ++
  "\n" ++
  "output:\n" ++
  "  output_dir: docs/api\n" ++
  "  index_file: index.md\n" ++
  "  index_title: API Reference\n" ++
  "  missing_type: void\n" ++
  "\n" ++
  "logging:\n" ++
  "  level: INFO\n" ++
  "  format: \"%(asctime)s - %(name)s - %(levelname)s - %(message)s\"\n" ++
  "  file: null\n"

end Settings

end ApiDoc
