/-!
# Page templates

Each sort of page belongs to a template with a file name. A set of templates renders a page if it
has the template; the set that comes with the program has all of them, and a folder that does not
exist has none.
-/

namespace ApiDoc.Page

inductive Template where
  | classPage
  | index
  | navigation
deriving Repr, DecidableEq, Inhabited

def Template.fileName : Template → String
  | classPage => "class.md.j2"
  | index => "index.md.j2"
  | navigation => "nav.md.j2"

/-- The templates at hand, in the order of their file names. -/
structure TemplateSet where
  templates : List Template
deriving Repr, DecidableEq, Inhabited

namespace TemplateSet

def packaged : TemplateSet := ⟨[.classPage, .index, .navigation]⟩

def absent : TemplateSet := ⟨[]⟩

def fileNames (s : TemplateSet) : List String :=
  s.templates.map Template.fileName

/-- A page, if its template is at hand. -/
def render? (s : TemplateSet) (t : Template) (page : String) : Option String :=
  if s.templates.contains t then some page else none

end TemplateSet

end ApiDoc.Page
