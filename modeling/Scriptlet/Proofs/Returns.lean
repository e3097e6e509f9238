import Mathlib
import Scriptlet.Binding
import Scriptlet.Proofs.Steps

/-!
# Where a `return` stops

A call is the only thing that takes up a `return`.  So no expression ends in one (`contained_eval`, `contained_invoke`),
and a statement outside functions does only if its binding has a fault (`contained_execAll`).
-/
namespace Scriptlet

/-- The run ends in no `return`, whatever the machine. -/
def Run.Contained {α : Type} (r : Run α) : Prop := ∀ m v, (r m).1 ≠ .returned v

namespace Run

variable {α β : Type}

theorem contained_pure (a : α) : Contained (pure a) := by
  intro m v h
  cases h

theorem contained_fail (f : Fault) : Contained (fail f : Run α) := by
  intro m v h
  cases h

theorem contained_ofExcept (e : Except Fault α) : Contained (ofExcept e) := by
  cases e
  · exact contained_fail _
  · exact contained_pure _

theorem Contained.bind {r : Run α} {k : α → Run β} (h : Contained r) (hk : ∀ a, Contained (k a)) :
    Contained (r >>= k) := by
  intro m v
  rw [bind_def]
  rcases hr : r m with ⟨_ | w | _ | _, n⟩
  · exact hk _ n v
  · exact absurd (by rw [hr]) (h m w)
  · exact nofun
  · exact nofun

theorem Contained.within {r : Run α} (h : Contained r) (f : FrameId) : Contained (within f r) :=
  fun m v => h { m with here := f } v

theorem contained_result (body : Run Unit) : Contained (result body) := by
  intro m v
  unfold result
  rcases body m with ⟨_ | _ | _ | _, n⟩ <;> exact nofun

theorem Contained.choose {b : Prop} [Decidable b] {r k : Run α} (hr : Contained r) (hk : Contained k) :
    Contained (if b then r else k) := by
  split
  · exact hr
  · exact hk

end Run

section

open Run

variable {inv : Invoke}

theorem contained_applyUnary (t : Token) (v : Value) : Contained (applyUnary t v) := by
  unfold applyUnary
  split
  · exact contained_pure _
  · exact contained_pure _
  · exact contained_fail _

theorem contained_applyArithmetic (t : Token) (x y : Number) : Contained (applyArithmetic t x y) := by
  unfold applyArithmetic
  split
  iterate 7 exact contained_pure _
  exact contained_fail _

theorem contained_applyBinary (t : Token) (v w : Value) : Contained (applyBinary t v w) := by
  unfold applyBinary
  split
  · exact contained_pure _
  · exact contained_pure _
  · split
    · exact contained_pure _
    · exact contained_pure _
    · exact contained_fail _
  · split
    · exact contained_applyArithmetic t _ _
    · exact contained_fail _

theorem contained_assign (id : Nat) (name : Token) (v : Value) : Contained (Run.assign id name v) := by
  intro m w
  unfold Run.assign
  split <;> exact nofun

theorem contained_apply (f : Native) (vs : List Value) : Contained (f.apply vs) := by
  unfold Native.apply
  split
  · exact Contained.bind (fun m v => nofun) fun _ => contained_pure _
  · exact contained_pure _
  · exact contained_pure _
  · exact contained_pure _

theorem contained_invoke : ∀ (n : Nat) (f : Callable) (vs : List Value), Contained (invoke n f vs)
  | 0, .native _ f, vs => contained_apply f vs
  | _ + 1, .native _ f, vs => contained_apply f vs
  | 0, .closure _ _ _, _ => fun _ _ => nofun
  | n + 1, .closure _ f frame, vs => by
    have hb (inner : FrameId) : ∀ (ps : List Token) (vs : List Value), Contained (bindParams inner ps vs) := by
      intro ps vs
      fun_induction bindParams inner ps vs with
      | case1 p ps v vs ih => exact Contained.bind (fun m v => nofun) fun _ => ih
      | case2 => exact contained_pure _
    exact Contained.bind (fun m v => nofun) fun inner => (hb inner f.params vs).bind fun _ => contained_result _

theorem contained_applyCall (hi : ∀ f vs, Contained (inv f vs)) (t : Token) (v : Value) (vs : List Value) :
    Contained (applyCall inv t v vs) := by
  unfold applyCall
  split
  · exact .choose (hi _ _) (contained_fail _)
  · exact contained_fail _

mutual
theorem contained_eval (hi : ∀ f vs, Contained (inv f vs)) : ∀ e : Expr, Contained (e.eval inv)
  | .literal _ => contained_pure _
  | .variable _ _ => fun _ _ => contained_ofExcept _ _ _
  | .assign _ _ e => (contained_eval hi e).bind fun _ => (contained_assign _ _ _).bind fun _ => contained_pure _
  | .group e => contained_eval hi e
  | .unary t e => (contained_eval hi e).bind fun v => contained_applyUnary t v
  | .binary l t r => (contained_eval hi l).bind fun v => (contained_eval hi r).bind fun w => contained_applyBinary t v w
  | .logical l _ r => (contained_eval hi l).bind fun _ => .choose (contained_pure _) (contained_eval hi r)
  | .call e t es => (contained_eval hi e).bind fun f => (contained_evalAll hi es).bind fun vs =>
      contained_applyCall hi t f vs

theorem contained_evalAll (hi : ∀ f vs, Contained (inv f vs)) : ∀ es : List Expr, Contained (Expr.evalAll inv es)
  | [] => contained_pure _
  | e :: es => (contained_eval hi e).bind fun _ => (contained_evalAll hi es).bind fun _ => contained_pure _
end

theorem contained_optionalEval (hi : ∀ f vs, Contained (inv f vs)) : ∀ o : Option Expr, Contained (optionalEval inv o)
  | none => contained_pure _
  | some e => contained_eval hi e

theorem contained_loop {test : Run Value} {body : Run Unit} (ht : Contained test) (hb : Contained body) :
    ∀ k, Contained (loop test body k)
  | 0 => fun _ _ => nofun
  | k + 1 => by
    rw [loop_succ]
    exact ht.bind fun _ => .choose (hb.bind fun _ => contained_loop ht hb k) (contained_pure _)

theorem Findings.faults_append {a b : Findings} : (a ++ b).faults = [] ↔ a.faults = [] ∧ b.faults = [] :=
  List.append_eq_nil_iff

mutual
theorem contained_exec (hi : ∀ f vs, Contained (inv f vs)) (k : Nat) : ∀ (s : Stmt) {scopes : List Scope},
    (s.findings false scopes).faults = [] → Contained (s.exec inv k)
  | .block body, _, h => Contained.bind (fun _ _ => nofun) fun f => (contained_execAll hi k body h).within f
  | .expression e, _, _ => (contained_eval hi e).bind fun _ => contained_pure _
  | .function _ _ _, _, _ => fun _ _ => nofun
  | .conditional e yes none, _, h => by
    rw [Stmt.findings, Findings.faults_append, Findings.faults_append] at h
    exact (contained_eval hi e).bind fun _ => .choose (contained_exec hi k yes h.1.2) (contained_pure _)
  | .conditional e yes (some no), _, h => by
    rw [Stmt.findings, Findings.faults_append, Findings.faults_append] at h
    exact (contained_eval hi e).bind fun _ => .choose (contained_exec hi k yes h.1.2) (contained_exec hi k no h.2)
  | .print e, _, _ => (contained_eval hi e).bind fun _ _ _ => contained_ofExcept _ _ _
  | .return t o, _, h => by
    rw [Stmt.findings, Findings.faults_append] at h
    cases h.1
  | .var _ o, _, _ => (contained_optionalEval hi o).bind fun _ _ _ => nofun
  | .while e body, _, h => by
    rw [Stmt.findings, Findings.faults_append] at h
    exact contained_loop (contained_eval hi e) (contained_exec hi k body h.2) k

theorem contained_execAll (hi : ∀ f vs, Contained (inv f vs)) (k : Nat) : ∀ (ss : List Stmt) {scopes : List Scope},
    (Stmt.findingsAll false scopes ss).faults = [] → Contained (Stmt.execAll inv k ss)
  | [], _, _ => contained_pure _
  | s :: ss, _, h => by
    rw [Stmt.findingsAll, Findings.faults_append] at h
    exact (contained_exec hi k s h.1).bind fun _ => contained_execAll hi k ss h.2
end

end
end Scriptlet
