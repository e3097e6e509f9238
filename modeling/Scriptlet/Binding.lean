import Scriptlet.Fault
import Scriptlet.Tree
import Std.Data.TreeMap

/-!
# Binding

For every occurrence of a local variable, how many scopes lie between it and the scope that declares the name.  The
table knows an occurrence by its node number; one that has no entry is global.

A block and a function each open one scope, and the parameters of a function stand in the scope of its body.  The top
level opens none.  A name is declared from its statement on: a function's name inside its own body too, a variable's
inside its own initializer too, where reading it is a fault.
-/
namespace Scriptlet

/-- Distances by node number. -/
abbrev Bindings := Std.TreeMap Nat Nat

/-- The names a scope has declared so far, the latest first, each with whether its value is there yet. -/
abbrev Scope := List (String × Bool)

namespace Scope

def declares (scope : Scope) (name : String) : Bool := scope.any (·.1 = name)

/-- Declares a name in the innermost of the scopes.  At the top level there is none, and nothing is kept. -/
def declare (name : String) (ready : Bool) : List Scope → List Scope
  | [] => []
  | scope :: outer => ((name, ready) :: scope) :: outer

/-- How many scopes lie inside the innermost one that declares the name. -/
def distance? (scopes : List Scope) (name : String) : Option Nat := scopes.findIdx? (·.declares name)

/-- Whether the innermost scope is at the initializer of this very name. -/
def initializing (scopes : List Scope) (name : String) : Bool :=
  (scopes.head?.bind (·.lookup name)) = some false

/-- The scope that a call of a function opens. -/
def ofParams (params : List Token) : Scope := (params.map fun p => (p.lexeme, true)).reverse

end Scope

/-- What a walk over a tree finds: entries for the table, and faults in order. -/
structure Findings where
  entries : List (Nat × Nat)
  faults : List Fault

namespace Findings

def none : Findings := ⟨[], []⟩

def fault (t : Token) (cause : Cause) : Findings := ⟨[], [.resolve t.site cause]⟩

instance : Append Findings where
  append a b := ⟨a.entries ++ b.entries, a.faults ++ b.faults⟩

/-- The entry of an occurrence, if it is local. -/
def bound (scopes : List Scope) (id : Nat) (name : Token) : Findings :=
  match Scope.distance? scopes name.lexeme with
  | some d => ⟨[(id, d)], []⟩
  | Option.none => none

end Findings

mutual
def Expr.findings (scopes : List Scope) : Expr → Findings
  | .literal _ => .none
  | .variable id name =>
    (if Scope.initializing scopes name.lexeme then Findings.fault name .ownInitializer else .none) ++
      .bound scopes id name
  | .assign id name value => value.findings scopes ++ .bound scopes id name
  | .group inner => inner.findings scopes
  | .unary _ right => right.findings scopes
  | .binary left _ right => left.findings scopes ++ right.findings scopes
  | .logical left _ right => left.findings scopes ++ right.findings scopes
  | .call callee _ arguments => callee.findings scopes ++ Expr.findingsAll scopes arguments

def Expr.findingsAll (scopes : List Scope) : List Expr → Findings
  | [] => .none
  | e :: es => e.findings scopes ++ Expr.findingsAll scopes es
end

def optionalFindings (scopes : List Scope) : Option Expr → Findings
  | none => .none
  | some e => e.findings scopes

/-- The scopes as a statement leaves them.  A branch or loop body that is itself a declaration declares here. -/
def Stmt.declare : Stmt → List Scope → List Scope
  | .var name _, scopes => Scope.declare name.lexeme true scopes
  | .function name _ _, scopes => Scope.declare name.lexeme true scopes
  | .conditional _ yes none, scopes => yes.declare scopes
  | .conditional _ yes (some no), scopes => no.declare (yes.declare scopes)
  | .while _ body, scopes => body.declare scopes
  | _, scopes => scopes

mutual
/-- `inside` tells whether the statement is part of a function. -/
def Stmt.findings (inside : Bool) (scopes : List Scope) : Stmt → Findings
  | .block body => Stmt.findingsAll inside ([] :: scopes) body
  | .expression value => value.findings scopes
  | .function name params body =>
    Stmt.findingsAll true (Scope.ofParams params :: Scope.declare name.lexeme true scopes) body
  | .conditional test yes no =>
    test.findings scopes ++ yes.findings inside scopes ++
      match no with
      | none => .none
      | some s => s.findings inside (yes.declare scopes)
  | .print value => value.findings scopes
  | .return keyword value =>
    (if inside then .none else Findings.fault keyword .topLevelReturn) ++ optionalFindings scopes value
  | .var name initializer => optionalFindings (Scope.declare name.lexeme false scopes) initializer
  | .while test body => test.findings scopes ++ body.findings inside scopes

def Stmt.findingsAll (inside : Bool) (scopes : List Scope) : List Stmt → Findings
  | [] => .none
  | s :: ss => s.findings inside scopes ++ Stmt.findingsAll inside (s.declare scopes) ss
end

/-- What a whole program binds. -/
def resolve (program : List Stmt) : Findings := Stmt.findingsAll false [] program

def Findings.table (f : Findings) : Bindings := .ofList f.entries

/-- Adds a later program's entries to those of the earlier ones. -/
def Bindings.add (table : Bindings) (entries : List (Nat × Nat)) : Bindings := table.insertMany entries

end Scriptlet
