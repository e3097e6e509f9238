import Mathlib
import Scriptlet.Proofs.Continuation

/-!
# A larger bound

The bound on calls and rounds is not part of the language.  A run that does not reach it is the same with any larger
bound (`Session.run_of_le`), so whether a text comes to an end (`Session.Terminates`), and in which way, does not
depend on it.
-/
namespace Scriptlet

/-- The second run does what the first does, unless that reaches its bound. -/
def Run.ExtendedBy {α : Type} (r r' : Run α) : Prop := ∀ m, (r m).1 ≠ .spent → r' m = r m

namespace Run

variable {α β : Type} {r r' : Run α}

theorem extendedBy_self (r : Run α) : r.ExtendedBy r := fun _ _ => rfl

theorem extendedBy_spent (r : Run α) : spent.ExtendedBy r := fun _ h => absurd rfl h

theorem ExtendedBy.bind {k k' : α → Run β} (h : r.ExtendedBy r') (hk : ∀ a, (k a).ExtendedBy (k' a)) :
    (r >>= k).ExtendedBy (r' >>= k') := by
  intro m
  have hm := h m
  rw [bind_def, bind_def]
  rcases hr : r m with ⟨a | v | f | _, n⟩ <;> rw [hr] at hm
  · intro hs
    rw [hm nofun]
    exact hk a n hs
  · exact fun _ => by rw [hm nofun]
  · exact fun _ => by rw [hm nofun]
  · exact fun hs => absurd rfl hs

theorem ExtendedBy.choose {b : Prop} [Decidable b] {k k' : Run α} (h : r.ExtendedBy r') (hk : k.ExtendedBy k') :
    (if b then r else k).ExtendedBy (if b then r' else k') := by
  split
  · exact h
  · exact hk

theorem ExtendedBy.within (h : r.ExtendedBy r') (f : FrameId) : (within f r).ExtendedBy (within f r') := by
  intro m hs
  have hm := h { m with here := f } hs
  unfold Run.within
  rw [hm]

theorem ExtendedBy.result {r r' : Run Unit} (h : r.ExtendedBy r') : (result r).ExtendedBy (result r') := by
  intro m hs
  have hm : (r m).1 ≠ .spent := fun hr => hs (by
    unfold Run.result
    rcases h' : r m with ⟨_, n⟩
    rw [h'] at hr
    cases hr
    rfl)
  unfold Run.result
  rw [h m hm]

end Run

/-! ## Trees -/

section

open Run

variable {inv inv' : Invoke}

/-- The calls that one bound allows settle those that another does. -/
def Invoke.ExtendedBy (inv inv' : Invoke) : Prop := ∀ f vs, (inv f vs).ExtendedBy (inv' f vs)

theorem extendedBy_applyCall (hi : Invoke.ExtendedBy inv inv') (t : Token) (v : Value) (vs : List Value) :
    (applyCall inv t v vs).ExtendedBy (applyCall inv' t v vs) := by
  unfold applyCall
  split
  · exact .choose (hi _ _) (extendedBy_self _)
  · exact extendedBy_self _

mutual
theorem extendedBy_eval (hi : Invoke.ExtendedBy inv inv') : ∀ e : Expr, (e.eval inv).ExtendedBy (e.eval inv')
  | .literal _ => extendedBy_self _
  | .variable _ _ => extendedBy_self _
  | .assign _ _ e => (extendedBy_eval hi e).bind fun _ => extendedBy_self _
  | .group e => extendedBy_eval hi e
  | .unary _ e => (extendedBy_eval hi e).bind fun _ => extendedBy_self _
  | .binary l _ r => (extendedBy_eval hi l).bind fun _ => (extendedBy_eval hi r).bind fun _ => extendedBy_self _
  | .logical l _ r => (extendedBy_eval hi l).bind fun _ => .choose (extendedBy_self _) (extendedBy_eval hi r)
  | .call e t es => (extendedBy_eval hi e).bind fun f => (extendedBy_evalAll hi es).bind fun vs =>
    extendedBy_applyCall hi t f vs

theorem extendedBy_evalAll (hi : Invoke.ExtendedBy inv inv') :
    ∀ es : List Expr, (Expr.evalAll inv es).ExtendedBy (Expr.evalAll inv' es)
  | [] => extendedBy_self _
  | e :: es => (extendedBy_eval hi e).bind fun _ => (extendedBy_evalAll hi es).bind fun _ => extendedBy_self _
end

theorem extendedBy_optionalEval (hi : Invoke.ExtendedBy inv inv') :
    ∀ o : Option Expr, (optionalEval inv o).ExtendedBy (optionalEval inv' o)
  | none => extendedBy_self _
  | some e => extendedBy_eval hi e

theorem extendedBy_loop {test test' : Run Value} {body body' : Run Unit} (ht : test.ExtendedBy test')
    (hb : body.ExtendedBy body') : ∀ {k k' : Nat}, k ≤ k' → (loop test body k).ExtendedBy (loop test' body' k')
  | 0, _, _ => extendedBy_spent _
  | k + 1, k' + 1, h => by
    rw [loop_succ, loop_succ]
    exact ht.bind fun _ => .choose (hb.bind fun _ => extendedBy_loop ht hb (Nat.le_of_succ_le_succ h))
      (extendedBy_self _)

mutual
theorem extendedBy_exec (hi : Invoke.ExtendedBy inv inv') {k k' : Nat} (h : k ≤ k') :
    ∀ s : Stmt, (s.exec inv k).ExtendedBy (s.exec inv' k')
  | .block body => (extendedBy_self _).bind fun f => (extendedBy_execAll hi h body).within f
  | .expression e => (extendedBy_eval hi e).bind fun _ => extendedBy_self _
  | .function _ _ _ => extendedBy_self _
  | .conditional e yes none => (extendedBy_eval hi e).bind fun _ =>
    .choose (extendedBy_exec hi h yes) (extendedBy_self _)
  | .conditional e yes (some no) => (extendedBy_eval hi e).bind fun _ =>
      .choose (extendedBy_exec hi h yes) (extendedBy_exec hi h no)
  | .print e => (extendedBy_eval hi e).bind fun _ => extendedBy_self _
  | .return _ o => (extendedBy_optionalEval hi o).bind fun _ => extendedBy_self _
  | .var _ o => (extendedBy_optionalEval hi o).bind fun _ => extendedBy_self _
  | .while e body => extendedBy_loop (extendedBy_eval hi e) (extendedBy_exec hi h body) h

theorem extendedBy_execAll (hi : Invoke.ExtendedBy inv inv') {k k' : Nat} (h : k ≤ k') :
    ∀ ss : List Stmt, (Stmt.execAll inv k ss).ExtendedBy (Stmt.execAll inv' k' ss)
  | [] => extendedBy_self _
  | s :: ss => (extendedBy_exec hi h s).bind fun _ => extendedBy_execAll hi h ss
end

theorem extendedBy_invoke : ∀ {n n' : Nat}, n ≤ n' → Invoke.ExtendedBy (invoke n) (invoke n')
  | 0, 0, _, .native _ f, vs => extendedBy_self (f.apply vs)
  | 0, _ + 1, _, .native _ f, vs => extendedBy_self (f.apply vs)
  | _ + 1, _ + 1, _, .native _ f, vs => extendedBy_self (f.apply vs)
  | 0, _, _, .closure _ _ _, _ => extendedBy_spent _
  | _ + 1, _ + 1, h, .closure _ f _, _ =>
    have h := Nat.le_of_succ_le_succ h
    (extendedBy_self _).bind fun inner => (extendedBy_self _).bind fun _ =>
      ((extendedBy_execAll (extendedBy_invoke h) h f.body).within inner).result

end

/-! ## Texts -/

namespace Session

variable {s : Session} {source : String} {n n' : Nat}

/-- **A run that does not reach its bound is the same with a larger one.** -/
theorem exec_of_le {a : Analysis} (h : n ≤ n') (hs : (s.exec n a).1 ≠ .spent) : s.exec n' a = s.exec n a :=
  extendedBy_execAll (extendedBy_invoke h) h a.statements _ hs

/-- With this bound the text is run to its end.  A rejected text is not run at all. -/
def TerminatesWithin (s : Session) (source : String) (n : Nat) : Prop :=
  s.Accepts source → (s.exec n (analyze s.fresh source)).1 ≠ .spent

/-- The run of the text comes to an end. -/
def Terminates (s : Session) (source : String) : Prop := ∃ n, s.TerminatesWithin source n

theorem run_of_le (h : n ≤ n') (hs : s.TerminatesWithin source n) : s.run n' source = s.run n source := by
  by_cases ha : s.Accepts source
  · have hs := hs ha
    have hrun := run_accepted (t := ⟨n, source⟩) ha
    have hrun' := run_accepted (t := ⟨n', source⟩) ha
    dsimp only at hrun hrun'
    rw [hrun, hrun']
    generalize analyze s.fresh source = a at hs ⊢
    have he := exec_of_le h hs
    unfold ended
    rw [interpret_eq, interpret_eq]
    change (if (s.exec n' a).2.sink.flushable then (s.exec n' a).1.outcome else _, Session.mk (s.exec n' a).2 _) =
      (if (s.exec n a).2.sink.flushable then (s.exec n a).1.outcome else _, Session.mk (s.exec n a).2 _)
    rw [he]
  · have hrun := run_rejected (t := ⟨n, source⟩) ha
    have hrun' := run_rejected (t := ⟨n', source⟩) ha
    exact hrun'.trans hrun.symm

/-- **A text ends in one way only**, whatever the bounds with which it ends. -/
theorem run_eq_of_terminates (h : s.TerminatesWithin source n) (h' : s.TerminatesWithin source n') :
    s.run n source = s.run n' source := by
  rcases Nat.le_total n n' with hle | hle
  · exact (run_of_le hle h).symm
  · exact run_of_le hle h'

end Session
end Scriptlet
