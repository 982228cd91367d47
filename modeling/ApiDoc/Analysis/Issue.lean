import ApiDoc.Text.Blank
import ApiDoc.Text.Lines

/-!
# Issues

What can be remarked about a comment, and the text of the remark. A remark shows the comment under
its message, with the indentation put in order.
-/

namespace ApiDoc.Analysis

open Text

inductive MemberKind where
  | method
  | property
deriving Repr, DecidableEq, Inhabited

def MemberKind.label : MemberKind → String
  | method => "method"
  | property => "property"

inductive Issue where
  /-- A tag that counts once stands there again. -/
  | duplicateTag (label : String)
  /-- More tags that name a subject than one comment should have. -/
  | manyPrimaryTags (labels : List String)
  | duplicateParam (name : String)
  | unnamedParam
  | missingName (label : String)
  | ignoredType (label : String)
  | ignoredReturnName
  | missingReturnType
  /-- A member stands before every class of its file. -/
  | orphanMember (kind : MemberKind) (name : String)
  /-- The class has a member of this kind and name already. -/
  | memberExists (kind : MemberKind) (className name : String)
deriving Repr, DecidableEq, Inhabited

namespace Issue

/-- The name of the sort of an issue. -/
def label : Issue → String
  | duplicateTag _ => "duplicate_tag"
  | manyPrimaryTags _ => "multiple_primary_tags"
  | duplicateParam _ => "duplicate_param"
  | unnamedParam => "missing_param_name"
  | missingName _ => "missing_name"
  | ignoredType _ => "ignored_type"
  | ignoredReturnName => "return_name_ignored"
  | missingReturnType => "missing_return_type"
  | orphanMember _ _ => "orphan_member"
  | memberExists _ _ _ => "member_exists"

/-- The margin of the messages that are laid out over several lines. -/
def margin : String := "        "

/-- Lines with the margin before each that is not empty, between an empty line and a short margin. -/
def paragraph (ls : List String) : String :=
  let indented := ls.map fun l => if l.isEmpty then l else margin ++ l
  "\n".intercalate ("" :: indented ++ ["    "])

/-- The message of an issue, as it is laid out before trimming. -/
def message : Issue → String
  | duplicateTag label => paragraph
      ["More than one @" ++ label ++ " tag was found in a comment.",
        "Only the first occurrence will be used."]
  | manyPrimaryTags labels =>
      "Found more than one primary tag in a single comment. Unexpected\n" ++
      "behavior may occur with documentation output.\n\n" ++
      "The following tags should not be in the same comment:\n\n" ++
      "\n".intercalate (labels.map ("@" ++ ·))
  | duplicateParam name =>
      "Duplicate parameter \"" ++ name ++ "\" found for a @method or " ++
      "@function comment. Only the first will be used."
  | unnamedParam => "A @param tag in the comment had no name field. Skipping."
  | missingName label => "A @" ++ label ++ " tag in the comment had no name field. Skipping."
  | ignoredType label =>
      "The \x7btype\x7d field of a @" ++ label ++ " tag is ignored. " ++
      "Use @param and @return to define the " ++ label ++ " shape."
  | ignoredReturnName => "The name field of a @return (or @returns) tag is ignored."
  | missingReturnType =>
      "A @return tag did not have a \x7btype\x7d field. " ++
      "Specify a return type, f.e. @return \x7bnumber\x7d."
  | orphanMember kind name => paragraph
      ["Encountered an @" ++ kind.label ++ " tag named \"" ++ name ++ "\" outside of the",
        "context of a class. This most likely means that the " ++ kind.label,
        "definition did not come after an @class comment in the source",
        "code order.",
        "",
        "@" ++ kind.label ++ " comments must follow an @class comment in the same file",
        "to be associated with the class."]
  | memberExists kind className name =>
      paragraph
        ["A " ++ kind.label ++ " called '" ++ name ++ "' is already defined for the",
          "class '" ++ className ++ "'. This means you probably have two or",
          "more comments with an @" ++ kind.label ++ " tag defining the same",
          kind.label ++ " name. Only the first definition will be used."] ++
      match kind with
      | .method => paragraph
          ["If you meant to define an overloaded method, prefer to",
            "use type unions in the type definitions of your method",
            "parameters, all within a single @method comment."] ++ "    "
      | .property => ""

end Issue

/-! ## Layout of remarks -/

/-- A message without the indentation of its lines and without blanks at its ends. -/
def trimLines (message : String) : String :=
  String.ofList (strip (unlines ((lines message.toList).map strip)))

/-- A comment with one blank before each line but the first, in place of the indentation. -/
def reindent (source : String) : String :=
  match lines source.toList with
  | [] => ""
  | first :: rest => String.ofList (unlines (strip first :: rest.map fun l => ' ' :: strip l))

def withComment (message source : String) : String :=
  trimLines message ++ "\nThe comment was:\n\n" ++ reindent source

structure Warning where
  issue : Issue
  source : String
  file : String
deriving Repr, DecidableEq, Inhabited

/-- A remark, behind the name of the file if that is known. -/
def remark (file message source : String) : String :=
  if file.isEmpty then withComment message source
  else file ++ ": " ++ withComment message source

def Warning.text (w : Warning) : String :=
  remark w.file w.issue.message w.source

end ApiDoc.Analysis
