import ApiDoc.TypeExpr.Parser

/-!
# Type expressions

A type expression keeps its text. The tree is there when the text could be read, and a text that
could not be read is kept as it is.
-/

namespace ApiDoc

/-- The type between the braces of a tag. -/
structure TypeExpr where
  source : String
  /-- The tree, if the text is a type expression. -/
  node : Option TypeExpr.Node := none
deriving Repr, DecidableEq, Inhabited

namespace TypeExpr

def isParsed (t : TypeExpr) : Bool :=
  t.node.isSome

/-- Read a text, and keep it alone if it is no type expression. -/
def parse (source : String) : TypeExpr :=
  { source, node := (parseNode source).toOption }

end TypeExpr

end ApiDoc
