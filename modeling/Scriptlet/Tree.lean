import Scriptlet.Token

/-!
# Trees

Expressions and statements.  Every node that names a variable has a number of its own, by which a binding table knows
it.
-/
namespace Scriptlet

inductive Expr where
  | literal (value : Literal)
  /-- A variable that is read. -/
  | variable (id : Nat) (name : Token)
  | assign (id : Nat) (name : Token) (value : Expr)
  | group (inner : Expr)
  | unary (operator : Token) (right : Expr)
  | binary (left : Expr) (operator : Token) (right : Expr)
  /-- `and` and `or`, which may leave their right side alone. -/
  | logical (left : Expr) (operator : Token) (right : Expr)
  /-- The token is the closing parenthesis. -/
  | call (callee : Expr) (paren : Token) (arguments : List Expr)

inductive Stmt where
  | block (body : List Stmt)
  | expression (value : Expr)
  | function (name : Token) (params : List Token) (body : List Stmt)
  | conditional (test : Expr) (yes : Stmt) (no : Option Stmt)
  | print (value : Expr)
  | return (keyword : Token) (value : Option Expr)
  | var (name : Token) (initializer : Option Expr)
  | while (test : Expr) (body : Stmt)

/-- The meaning of `for (initializer; test; step) body`: a loop whose body runs the step last, in a block of its own
with the initializer if there is one.  A missing test is true. -/
def Stmt.ofFor (initializer : Option Stmt) (test step : Option Expr) (body : Stmt) : Stmt :=
  let body := match step with
    | some e => .block [body, .expression e]
    | none => body
  let loop := .while (test.getD (.literal (.bool true))) body
  match initializer with
  | some s => .block [s, loop]
  | none => loop

end Scriptlet
