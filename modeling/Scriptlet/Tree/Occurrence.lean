import Scriptlet.Tree

/-!
# Occurrences of variables

The nodes of a tree that name a variable, in the order in which they are evaluated when every branch is taken once: the
right side of an assignment before its target, the callee before the arguments.
-/
namespace Scriptlet

/-- A node that reads a variable or assigns to it. -/
structure Occurrence where
  id : Nat
  name : Token
  assigns : Bool

mutual
def Expr.occurrences : Expr → List Occurrence
  | .literal _ => []
  | .variable id name => [⟨id, name, false⟩]
  | .assign id name value => value.occurrences ++ [⟨id, name, true⟩]
  | .group inner => inner.occurrences
  | .unary _ right => right.occurrences
  | .binary left _ right => left.occurrences ++ right.occurrences
  | .logical left _ right => left.occurrences ++ right.occurrences
  | .call callee _ arguments => callee.occurrences ++ Expr.occurrencesAll arguments

def Expr.occurrencesAll : List Expr → List Occurrence
  | [] => []
  | e :: es => e.occurrences ++ Expr.occurrencesAll es
end

def optionalOccurrences : Option Expr → List Occurrence
  | none => []
  | some e => e.occurrences

mutual
def Stmt.occurrences : Stmt → List Occurrence
  | .block body => Stmt.occurrencesAll body
  | .expression value => value.occurrences
  | .function _ _ body => Stmt.occurrencesAll body
  | .conditional test yes no =>
    test.occurrences ++ yes.occurrences ++
      match no with
      | none => []
      | some s => s.occurrences
  | .print value => value.occurrences
  | .return _ value => optionalOccurrences value
  | .var _ initializer => optionalOccurrences initializer
  | .while test body => test.occurrences ++ body.occurrences

def Stmt.occurrencesAll : List Stmt → List Occurrence
  | [] => []
  | s :: ss => s.occurrences ++ Stmt.occurrencesAll ss
end

end Scriptlet
