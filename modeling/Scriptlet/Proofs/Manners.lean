import Mathlib
import Scriptlet.Session
import Scriptlet.Proofs.Steps

/-!
# Evaluation in another manner

The evaluator with two things as parameters (`Manner`): how a node reaches its variable, and which blocks are bare, so
that they make no frame and what is in them runs in the frame around them.

Given access by distance and no bare block it is the evaluator itself (`Stmt.execBy_eq_exec`,
`Session.runBy_distance`).  Given access by search, every variable is looked up and assigned to outward from the
current frame, and no table is used.
-/
namespace Scriptlet

/-- How a node reads its variable and how it assigns to it. -/
structure Access where
  lookUp : Nat → Token → Run Value
  assign : Nat → Token → Value → Run Unit

namespace Access

/-- The table gives the distance of the frame. -/
def distance : Access := ⟨Run.lookUp, Run.assign⟩

/-- The nearest frame that holds the name, from the current one outward. -/
def search : Access where
  lookUp _ name := fun m => Run.ofExcept (m.store.get m.here name) m
  assign _ name value := fun m =>
    match m.store.assign m.here name value with
    | .ok store => (.value (), { m with store })
    | .error f => (.failed f, m)

end Access

structure Manner where
  access : Access
  bare : List Stmt → Bool

/-- With a frame for every block. -/
def Access.manner (access : Access) : Manner := ⟨access, fun _ => false⟩

/-- By distance, and without the frames of the bare blocks. -/
def Manner.without (bare : List Stmt → Bool) : Manner := ⟨.distance, bare⟩

section

variable (M : Manner)

mutual
def Expr.evalBy (invoke : Invoke) : Expr → Run Value
  | .literal value => pure (.ofLiteral value)
  | .variable id name => M.access.lookUp id name
  | .assign id name value => do
    let v ← value.evalBy invoke
    M.access.assign id name v
    return v
  | .group inner => inner.evalBy invoke
  | .unary operator right => do
    let v ← right.evalBy invoke
    applyUnary operator v
  | .binary left operator right => do
    let v ← left.evalBy invoke
    let w ← right.evalBy invoke
    applyBinary operator v w
  | .logical left operator right => do
    let v ← left.evalBy invoke
    if settles operator v then return v else right.evalBy invoke
  | .call callee paren arguments => do
    let f ← callee.evalBy invoke
    let vs ← Expr.evalAllBy invoke arguments
    applyCall invoke paren f vs

def Expr.evalAllBy (invoke : Invoke) : List Expr → Run (List Value)
  | [] => return []
  | e :: es => do
    let v ← e.evalBy invoke
    let vs ← Expr.evalAllBy invoke es
    return v :: vs
end

def optionalEvalBy (invoke : Invoke) : Option Expr → Run Value
  | none => pure .nil
  | some e => e.evalBy M invoke

mutual
def Stmt.execBy (invoke : Invoke) (rounds : Nat) : Stmt → Run Unit
  | .block body =>
    if M.bare body then Stmt.execAllBy invoke rounds body
    else do
      let frame ← Run.newFrameHere
      Run.within frame (Stmt.execAllBy invoke rounds body)
  | .expression value => do
    let _ ← value.evalBy M invoke
  | .function name params body => do
    let f ← Run.makeClosure ⟨name, params, body⟩
    Run.define name.lexeme f
  | .conditional test yes no => do
    let v ← test.evalBy M invoke
    if v.truthy then yes.execBy invoke rounds
    else match no with
      | none => return
      | some s => s.execBy invoke rounds
  | .print value => do
    let v ← value.evalBy M invoke
    Run.print v.display
  | .return _ value => do
    let v ← optionalEvalBy M invoke value
    Run.leave v
  | .var name initializer => do
    let v ← optionalEvalBy M invoke initializer
    Run.define name.lexeme v
  | .while test body => loop (test.evalBy M invoke) (body.execBy invoke rounds) rounds

def Stmt.execAllBy (invoke : Invoke) (rounds : Nat) : List Stmt → Run Unit
  | [] => return
  | s :: ss => do
    s.execBy invoke rounds
    Stmt.execAllBy invoke rounds ss
end

def invokeBy : Nat → Callable → List Value → Run Value
  | _, .native _ f, arguments => f.apply arguments
  | 0, .closure _ _ _, _ => Run.spent
  | n + 1, .closure _ f frame, arguments => do
    let inner ← Run.newFrame frame
    bindParams inner f.params arguments
    Run.result (Run.within inner (Stmt.execAllBy M (invokeBy n) n f.body))

def interpretBy (bound : Nat) (statements : List Stmt) (m : Machine) : Outcome × Machine :=
  let ended := Stmt.execAllBy M (invokeBy M bound) bound statements m
  (if ended.2.sink.flushable then ended.1.outcome else .runtimeFault (.output .flushFailed), ended.2)

end

/-- Runs a text with the access. -/
def Session.runBy (access : Access) (bound : Nat) (source : String) (s : Session) : Outcome × Session :=
  let a := analyze s.fresh source
  if a.faults.isEmpty then
    let m := { s.machine with bindings := s.machine.bindings.add a.entries }
    let ended := interpretBy access.manner bound a.statements m
    (ended.1, ⟨ended.2, a.fresh⟩)
  else (.staticFaults a.faults, { s with fresh := a.fresh })

/-! ## Bare blocks -/

mutual
/-- The statements in a statement. -/
def Stmt.inside : Stmt → List Stmt
  | .block body => Stmt.insideAll body
  | .function _ _ body => Stmt.insideAll body
  | .conditional _ yes no => (yes :: yes.inside) ++
      match no with
      | none => []
      | some s => s :: s.inside
  | .while _ body => body :: body.inside
  | _ => []

/-- The statements of a list, and those in them. -/
def Stmt.insideAll : List Stmt → List Stmt
  | [] => []
  | s :: ss => (s :: s.inside) ++ Stmt.insideAll ss
end

/-- None of the blocks in the statements is bare. -/
def NoneBare (bare : List Stmt → Bool) (ss : List Stmt) : Prop := ∀ body, .block body ∈ ss → bare body = false

/-! ## Access by distance is evaluation -/

section

variable {M : Manner} (inv : Invoke) (k : Nat)

mutual
theorem Expr.evalBy_eq_eval (hM : M.access = .distance) : ∀ e : Expr, e.evalBy M inv = e.eval inv
  | .literal _ => rfl
  | .variable _ _ => by rw [Expr.evalBy, hM]; rfl
  | .assign _ _ e => by rw [Expr.evalBy, Expr.eval, Expr.evalBy_eq_eval hM e, hM]; rfl
  | .group e => by rw [Expr.evalBy, Expr.eval, Expr.evalBy_eq_eval hM e]
  | .unary _ e => by rw [Expr.evalBy, Expr.eval, Expr.evalBy_eq_eval hM e]
  | .binary l _ r => by rw [Expr.evalBy, Expr.eval, Expr.evalBy_eq_eval hM l, Expr.evalBy_eq_eval hM r]
  | .logical l _ r => by rw [Expr.evalBy, Expr.eval, Expr.evalBy_eq_eval hM l, Expr.evalBy_eq_eval hM r]
  | .call e _ es => by rw [Expr.evalBy, Expr.eval, Expr.evalBy_eq_eval hM e, Expr.evalAllBy_eq_evalAll hM es]

theorem Expr.evalAllBy_eq_evalAll (hM : M.access = .distance) : ∀ es : List Expr,
    Expr.evalAllBy M inv es = Expr.evalAll inv es
  | [] => rfl
  | e :: es => by rw [Expr.evalAllBy, Expr.evalAll, Expr.evalBy_eq_eval hM e, Expr.evalAllBy_eq_evalAll hM es]
end

theorem optionalEvalBy_eq (hM : M.access = .distance) (o : Option Expr) :
    optionalEvalBy M inv o = optionalEval inv o := by
  cases o with
  | none => rfl
  | some e => exact e.evalBy_eq_eval inv hM

mutual
/-- **A statement without bare blocks runs as it does**, by distance. -/
theorem Stmt.execBy_eq_exec (hM : M.access = .distance) : ∀ s : Stmt, NoneBare M.bare (s :: s.inside) →
    s.execBy M inv k = s.exec inv k
  | .block body, h => by
    have hb : M.bare body = false := h body List.mem_cons_self
    have hall := Stmt.execAllBy_eq_execAll hM body fun b hm => h b (List.mem_cons_of_mem _ hm)
    rw [Stmt.execBy, Stmt.exec, hall, hb, if_neg Bool.false_ne_true]
  | .expression e, _ => by rw [Stmt.execBy, Stmt.exec, e.evalBy_eq_eval inv hM]
  | .function _ _ _, _ => rfl
  | .conditional e yes none, h => by
    have hyes := Stmt.execBy_eq_exec hM yes fun b hm => h b (List.mem_cons_of_mem _ (List.mem_append_left _ hm))
    rw [Stmt.execBy, Stmt.exec, e.evalBy_eq_eval inv hM, hyes]
  | .conditional e yes (some no), h => by
    have hyes := Stmt.execBy_eq_exec hM yes fun b hm => h b (List.mem_cons_of_mem _ (List.mem_append_left _ hm))
    have hno := Stmt.execBy_eq_exec hM no fun b hm => h b (List.mem_cons_of_mem _ (List.mem_append_right _ hm))
    rw [Stmt.execBy, Stmt.exec, e.evalBy_eq_eval inv hM, hyes, hno]
  | .print e, _ => by rw [Stmt.execBy, Stmt.exec, e.evalBy_eq_eval inv hM]
  | .return _ o, _ => by rw [Stmt.execBy, Stmt.exec, optionalEvalBy_eq inv hM]
  | .var _ o, _ => by rw [Stmt.execBy, Stmt.exec, optionalEvalBy_eq inv hM]
  | .while e body, h => by
    have hbody := Stmt.execBy_eq_exec hM body fun b hm => h b (List.mem_cons_of_mem _ hm)
    rw [Stmt.execBy, Stmt.exec, e.evalBy_eq_eval inv hM, hbody]

theorem Stmt.execAllBy_eq_execAll (hM : M.access = .distance) : ∀ ss : List Stmt,
    NoneBare M.bare (Stmt.insideAll ss) → Stmt.execAllBy M inv k ss = Stmt.execAll inv k ss
  | [], _ => rfl
  | s :: ss, h => by
    have hs := Stmt.execBy_eq_exec hM s fun b hm => h b (List.mem_append_left _ hm)
    have hss := Stmt.execAllBy_eq_execAll hM ss fun b hm => h b (List.mem_append_right _ hm)
    rw [Stmt.execAllBy, Stmt.execAll, hs, hss]
end

end

theorem interpretBy_eq {M : Manner} {bound : Nat} {ss : List Stmt} {m : Machine}
    (h : Stmt.execAllBy M (invokeBy M bound) bound ss m = Stmt.execAll (invoke bound) bound ss m) :
    interpretBy M bound ss m = interpret bound ss m := by
  rw [interpret_eq, interpretBy, h]

section

variable {M : Manner} (hM : M.access = .distance) (hb : ∀ body, M.bare body = false)

include hM hb

theorem invokeBy_eq_invoke (n : Nat) : invokeBy M n = invoke n := by
  induction n with
  | zero =>
    funext f vs
    cases f <;> rfl
  | succ n ih =>
    funext f vs
    cases f with
    | native id f => rfl
    | closure id f frame => rw [invokeBy, invoke, ih, Stmt.execAllBy_eq_execAll _ _ hM _ fun body _ => hb body]

theorem interpretBy_eq_interpret (bound : Nat) (ss : List Stmt) (m : Machine) :
    interpretBy M bound ss m = interpret bound ss m :=
  interpretBy_eq (by rw [invokeBy_eq_invoke hM hb, Stmt.execAllBy_eq_execAll _ _ hM _ fun body _ => hb body])

end

/-- **Access by distance is what the evaluator does.** -/
theorem Session.runBy_distance (bound : Nat) (source : String) (s : Session) :
    s.runBy .distance bound source = s.run bound source := by
  unfold runBy run
  simp only [interpretBy_eq_interpret (M := Access.distance.manner) rfl fun _ => rfl]

end Scriptlet
