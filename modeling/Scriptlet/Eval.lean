import Scriptlet.Machine

/-!
# Evaluation

Expressions and statements are evaluated along the tree.  Two things go beyond it: a loop, which is bounded by a number
of rounds, and a call, which is left to a parameter here and tied in `invoke`, bounded by the depth of calls.  A run
that stays below the bound does not depend on it.
-/
namespace Scriptlet

/-! ## Operators -/

def applyUnary (operator : Token) (right : Value) : Run Value :=
  match operator.kind, right with
  | .bang, v => pure (.bool !v.truthy)
  | .minus, .number x => pure (.number x.neg)
  | _, _ => .failAt operator .operandNotNumber

/-- The operators on two numbers, addition apart. -/
def applyArithmetic (operator : Token) (x y : Number) : Run Value :=
  match operator.kind with
  | .minus => pure (.number (x.sub y))
  | .star => pure (.number (x.mul y))
  | .slash => pure (.number (x.div y))
  | .greater => pure (.bool (y.lt x))
  | .greaterEqual => pure (.bool (y.le x))
  | .less => pure (.bool (x.lt y))
  | .lessEqual => pure (.bool (x.le y))
  | _ => .failAt operator (.unknownOperator operator.lexeme)

def applyBinary (operator : Token) (left right : Value) : Run Value :=
  match operator.kind with
  | .equalEqual => pure (.bool (left.equals right))
  | .bangEqual => pure (.bool !left.equals right)
  | .plus =>
    match left, right with
    | .number x, .number y => pure (.number (x.add y))
    | .text s, .text t => pure (.text (s ++ t))
    | _, _ => .failAt operator .operandsNotAddable
  | _ =>
    match left, right with
    | .number x, .number y => applyArithmetic operator x y
    | _, _ => .failAt operator .operandsNotNumbers

/-- Whether a logical operator is settled by its left side. -/
def settles (operator : Token) (left : Value) : Bool :=
  if operator.kind = .orWord then left.truthy else !left.truthy

def Native.apply (f : Native) (arguments : List Value) : Run Value :=
  match f.host with
  | .clock => return .number (← Run.readClock)
  | .first => pure (arguments.head?.getD .nil)
  | .last => pure (arguments.getLast?.getD .nil)
  | .count => pure (.number (.ofNat arguments.length))

/-! ## Trees -/

/-- How a call of a function with its arguments is run. -/
abbrev Invoke := Callable → List Value → Run Value

/-- A call written in a program: the callee is a function and takes so many arguments. -/
def applyCall (invoke : Invoke) (paren : Token) (callee : Value) (arguments : List Value) : Run Value :=
  match callee with
  | .callable f =>
    if arguments.length = f.arity then invoke f arguments
    else .failAt paren (.wrongArity f.arity arguments.length)
  | _ => .failAt paren .notCallable

mutual
def Expr.eval (invoke : Invoke) : Expr → Run Value
  | .literal value => pure (.ofLiteral value)
  | .variable id name => .lookUp id name
  | .assign id name value => do
    let v ← value.eval invoke
    Run.assign id name v
    return v
  | .group inner => inner.eval invoke
  | .unary operator right => do
    let v ← right.eval invoke
    applyUnary operator v
  | .binary left operator right => do
    let v ← left.eval invoke
    let w ← right.eval invoke
    applyBinary operator v w
  | .logical left operator right => do
    let v ← left.eval invoke
    if settles operator v then return v else right.eval invoke
  | .call callee paren arguments => do
    let f ← callee.eval invoke
    let vs ← Expr.evalAll invoke arguments
    applyCall invoke paren f vs

def Expr.evalAll (invoke : Invoke) : List Expr → Run (List Value)
  | [] => return []
  | e :: es => do
    let v ← e.eval invoke
    let vs ← Expr.evalAll invoke es
    return v :: vs
end

/-- The value of an expression that may be missing. -/
def optionalEval (invoke : Invoke) : Option Expr → Run Value
  | none => pure .nil
  | some e => e.eval invoke

/-- Runs the body as long as the test holds, for at most so many rounds. -/
def loop (test : Run Value) (body : Run Unit) : Nat → Run Unit
  | 0, m => Run.spent m
  | n + 1, m =>
    match test m with
    | (.value v, m) =>
      if v.truthy then
        match body m with
        | (.value _, m) => loop test body n m
        | ended => ended
      else (.value (), m)
    | (.returned v, m) => (.returned v, m)
    | (.failed f, m) => (.failed f, m)
    | (.spent, m) => (.spent, m)

mutual
def Stmt.exec (invoke : Invoke) (rounds : Nat) : Stmt → Run Unit
  | .block body => do
    let frame ← Run.newFrameHere
    Run.within frame (Stmt.execAll invoke rounds body)
  | .expression value => do
    let _ ← value.eval invoke
  | .function name params body => do
    let f ← Run.makeClosure ⟨name, params, body⟩
    Run.define name.lexeme f
  | .conditional test yes no => do
    let v ← test.eval invoke
    if v.truthy then yes.exec invoke rounds
    else match no with
      | none => return
      | some s => s.exec invoke rounds
  | .print value => do
    let v ← value.eval invoke
    Run.print v.display
  | .return _ value => do
    let v ← optionalEval invoke value
    Run.leave v
  | .var name initializer => do
    let v ← optionalEval invoke initializer
    Run.define name.lexeme v
  | .while test body => loop (test.eval invoke) (body.exec invoke rounds) rounds

def Stmt.execAll (invoke : Invoke) (rounds : Nat) : List Stmt → Run Unit
  | [] => return
  | s :: ss => do
    s.exec invoke rounds
    Stmt.execAll invoke rounds ss
end

/-! ## Calls -/

/-- Gives the parameters their values, as far as both go; of two parameters with one name the later counts. -/
def bindParams (frame : FrameId) : List Token → List Value → Run Unit
  | p :: ps, v :: vs => do
    Run.defineIn frame p.lexeme v
    bindParams frame ps vs
  | _, _ => return

/-- A call: the body of a function runs in a new frame inside the one it was declared in. -/
def invoke : Nat → Callable → List Value → Run Value
  | _, .native _ f, arguments => f.apply arguments
  | 0, .closure _ _ _, _ => Run.spent
  | n + 1, .closure _ f frame, arguments => do
    let inner ← Run.newFrame frame
    bindParams inner f.params arguments
    Run.result (Run.within inner (Stmt.execAll (invoke n) n f.body))

end Scriptlet
