import Scriptlet.Tree

/-!
# The parenthesised dump

A tree as nested lists: a word or an operator, then the parts.  Numbers of nodes and lines of tokens are not shown.
-/
namespace Scriptlet

/-- A list in parentheses with blanks between its parts. -/
def listText (parts : List String) : String := "(" ++ " ".intercalate parts ++ ")"

namespace Literal

/-- A text stands between quotes, with nothing escaped. -/
def dump : Literal → String
  | text s => "\"" ++ s ++ "\""
  | value => value.display

end Literal

mutual
def Expr.dump : Expr → String
  | .literal value => value.dump
  | .variable _ name => name.lexeme
  | .assign _ name value => listText ["=", name.lexeme, value.dump]
  | .group inner => listText ["group", inner.dump]
  | .unary operator right => listText [operator.lexeme, right.dump]
  | .binary left operator right => listText [operator.lexeme, left.dump, right.dump]
  | .logical left operator right => listText [operator.lexeme, left.dump, right.dump]
  | .call callee _ arguments => listText ("call" :: callee.dump :: Expr.dumps arguments)

def Expr.dumps : List Expr → List String
  | [] => []
  | e :: es => e.dump :: Expr.dumps es
end

mutual
def Stmt.dump : Stmt → String
  | .block body => listText ("block" :: Stmt.dumps body)
  | .expression value => listText [";", value.dump]
  | .function name params body =>
    listText ("fun" :: name.lexeme :: listText (params.map Token.lexeme) :: Stmt.dumps body)
  | .conditional test yes none => listText ["if", test.dump, yes.dump]
  | .conditional test yes (some no) => listText ["if", test.dump, yes.dump, no.dump]
  | .print value => listText ["print", value.dump]
  | .return _ none => listText ["return"]
  | .return _ (some value) => listText ["return", value.dump]
  | .var name none => listText ["var", name.lexeme]
  | .var name (some value) => listText ["var", name.lexeme, value.dump]
  | .while test body => listText ["while", test.dump, body.dump]

def Stmt.dumps : List Stmt → List String
  | [] => []
  | s :: ss => s.dump :: Stmt.dumps ss
end

end Scriptlet
