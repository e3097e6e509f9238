import Scriptlet.Json
import Scriptlet.Tree

/-!
# Trees as JSON

Everything a tree holds, lines and node numbers included.  A node is an object with one field, named for what it is;
absent parts are null.
-/
namespace Scriptlet

/-- An object with one field. -/
def node (name : String) (content : Json) : Json := .object [(name, content)]

def Kind.toJson : Kind → Json
  | .string s => node "STRING" (.text s)
  | .number x => node "NUMBER" (.number x)
  | kind => .text kind.name

def Token.toJson (t : Token) : Json :=
  .object [("token_type", t.kind.toJson), ("lexeme", .text t.lexeme), ("line", .natural t.line)]

def Literal.toJson : Literal → Json
  | .number x => node "Number" (.number x)
  | .text s => node "Str" (.text s)
  | .bool true => .text "True"
  | .bool false => .text "False"
  | .nil => .text "Nil"

mutual
def Expr.toJson : Expr → Json
  | .literal value => node "Literal" value.toJson
  | .variable id name => node "Variable" (.object [("id", .natural id), ("name", name.toJson)])
  | .assign id name value =>
    node "Assign" (.object [("id", .natural id), ("name", name.toJson), ("value", value.toJson)])
  | .group inner => node "Grouping" inner.toJson
  | .unary operator right => node "Unary" (.object [("operator", operator.toJson), ("right", right.toJson)])
  | .binary left operator right =>
    node "Binary" (.object [("left", left.toJson), ("operator", operator.toJson), ("right", right.toJson)])
  | .logical left operator right =>
    node "Logical" (.object [("left", left.toJson), ("operator", operator.toJson), ("right", right.toJson)])
  | .call callee paren arguments =>
    node "Call" (.object
      [("callee", callee.toJson), ("paren", paren.toJson), ("arguments", .list (Expr.toJsons arguments))])

def Expr.toJsons : List Expr → List Json
  | [] => []
  | e :: es => e.toJson :: Expr.toJsons es
end

def optionalExpr : Option Expr → Json
  | none => .null
  | some e => e.toJson

mutual
def Stmt.toJson : Stmt → Json
  | .block body => node "Block" (.list (Stmt.toJsons body))
  | .expression value => node "Expression" value.toJson
  | .function name params body =>
    node "Function" (.object
      [("name", name.toJson), ("params", .list (params.map Token.toJson)), ("body", .list (Stmt.toJsons body))])
  | .conditional test yes no =>
    node "If" (.object
      [("condition", test.toJson), ("then_branch", yes.toJson),
       ("else_branch", match no with
         | none => .null
         | some s => s.toJson)])
  | .print value => node "Print" value.toJson
  | .return keyword value =>
    node "Return" (.object [("keyword", keyword.toJson), ("value", optionalExpr value)])
  | .var name initializer =>
    node "Var" (.object [("name", name.toJson), ("initializer", optionalExpr initializer)])
  | .while test body => node "While" (.object [("condition", test.toJson), ("body", body.toJson)])

def Stmt.toJsons : List Stmt → List Json
  | [] => []
  | s :: ss => s.toJson :: Stmt.toJsons ss
end

end Scriptlet
