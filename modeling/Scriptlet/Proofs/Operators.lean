import Mathlib
import Scriptlet.Proofs.Agreement

/-!
# Runs know their operators

The evaluator has a fault for an operator that it does not know.  The trees of the parser are well formed
(`parse_shaped`), a function keeps the body it was read with, and so every operator that a run of a text comes to is one
that the evaluator knows.  What a run has to keep for this is that the bodies of all functions in the store are well
formed (`Store.Formed`); it is kept however the run ends (`Run.Safe`).
-/
namespace Scriptlet

/-- The body of a function is well formed; other values have none. -/
def Value.Formed : Value → Prop
  | .callable (.closure _ f _) => Stmt.FormedAll f.body
  | _ => True

/-- The functions that the frames hold are well formed. -/
def Store.Formed (s : Store) : Prop := ∀ f, ∀ c ∈ s.cells f, c.2.Formed

def Fault.UnknownOperator (f : Fault) : Prop := ∃ line lexeme, f = .run line (.unknownOperator lexeme)

/-- A run ends well: its value is such, what it returns is well formed, and a fault is not about an operator. -/
def Signal.Safe {α : Type} (post : α → Prop) : Signal α → Prop
  | .value a => post a
  | .returned v => v.Formed
  | .failed f => ¬ f.UnknownOperator
  | .spent => True

/-- The run keeps the functions well formed, and ends well. -/
def Run.Safe {α : Type} (r : Run α) (post : α → Prop) : Prop :=
  ∀ m : Machine, m.store.Formed → (r m).2.store.Formed ∧ (r m).1.Safe post

namespace Store.Formed

variable {s : Store}

theorem add (h : s.Formed) (outer : Option FrameId) : (s.add outer).2.Formed := fun f c hc =>
  h f c (Store.mem_cells_add hc)

theorem define (h : s.Formed) (f : FrameId) (name : String) {v : Value} (hv : v.Formed) :
    (s.define f name v).Formed := fun g c hc => by
  rcases Store.mem_cells_define hc with hc | hc
  · exact hc ▸ hv
  · exact h g c hc

theorem of_lookup (h : s.Formed) {f : FrameId} {x : String} {v : Value} (hv : (s.cells f).lookup x = some v) :
    v.Formed := by
  obtain ⟨l, l', hc, -⟩ := List.lookup_eq_some_iff.1 hv
  exact h f (x, v) (by rw [hc]; simp)

end Store.Formed

theorem Value.formed_ofLiteral (v : Literal) : (Value.ofLiteral v).Formed := by
  cases v <;> trivial

/-! ## Steps -/

section

open Run

variable {α β : Type} {r : Run α} {k : α → Run β} {post : α → Prop} {goal : β → Prop}

theorem safe_pure {a : α} (h : post a) : Safe (pure a) post := fun _ hm => ⟨hm, h⟩

theorem safe_fail {f : Fault} (h : ¬ f.UnknownOperator) : Safe (fail f : Run α) post := fun _ hm => ⟨hm, h⟩

theorem Run.Safe.bind (h : Safe r post) (hk : ∀ a, post a → Safe (k a) goal) : Safe (r >>= k) goal := by
  intro m hm
  have h := h m hm
  rw [bind_def]
  rcases hr : r m with ⟨a | v | f | _, n⟩ <;> rw [hr] at h
  · exact hk a h.2 n h.1
  · exact h
  · exact h
  · exact h

theorem Run.Safe.choose {b : Prop} [Decidable b] {q : Run α} (hr : Safe r post) (hq : Safe q post) :
    Safe (if b then r else q) post := by
  split
  · exact hr
  · exact hq

theorem Run.Safe.within (h : Safe r post) (frame : FrameId) : Safe (within frame r) post :=
  fun m hm => h { m with here := frame } hm

/-- A call takes up what its body returns. -/
theorem Run.Safe.result {body : Run Unit} (h : Safe body fun _ => True) : Safe (result body) Value.Formed := by
  intro m hm
  have h := h m hm
  unfold Run.result
  rcases hr : body m with ⟨_ | v | f | _, n⟩ <;> rw [hr] at h
  · exact ⟨h.1, trivial⟩
  all_goals exact h

theorem safe_newFrame (outer : FrameId) : Safe (newFrame outer) fun _ => True :=
  fun _ hm => ⟨hm.add (some outer), trivial⟩

theorem safe_newFrameHere : Safe newFrameHere fun _ => True := fun m => safe_newFrame m.here m

theorem safe_defineIn (f : FrameId) (name : String) {v : Value} (hv : v.Formed) :
    Safe (defineIn f name v) fun _ => True := fun _ hm => ⟨hm.define f name hv, trivial⟩

theorem safe_define (name : String) {v : Value} (hv : v.Formed) : Safe (define name v) fun _ => True :=
  fun m => safe_defineIn m.here name hv m

theorem not_unknownOperator {line : Nat} {cause : Cause} (h : ∀ x, cause ≠ .unknownOperator x) :
    ¬ (Fault.run line cause).UnknownOperator := by
  rintro ⟨l, x, hf⟩
  cases hf
  exact h x rfl

theorem safe_lookUp (id : Nat) (name : Token) : Safe (lookUp id name) Value.Formed := by
  intro m hm
  rcases lookUp_cases id name m with ⟨f, v, -, hv, hr⟩ | ⟨-, hr⟩ <;> rw [hr]
  · exact ⟨hm, hm.of_lookup hv⟩
  · exact ⟨hm, not_unknownOperator (by simp)⟩

theorem safe_assign (id : Nat) (name : Token) {v : Value} (hv : v.Formed) :
    Safe (Run.assign id name v) fun _ => True := by
  intro m hm
  rcases assign_cases id name v m with ⟨f, -, hr⟩ | ⟨-, hr⟩ <;> rw [hr]
  · exact ⟨hm.define f _ hv, trivial⟩
  · exact ⟨hm, not_unknownOperator (by simp)⟩

theorem safe_print (text : String) : Safe (Run.print text) fun _ => True := by
  intro m hm
  obtain ⟨sink, -, hr | hr⟩ := print_cases text m <;> rw [hr]
  · exact ⟨hm, trivial⟩
  · exact ⟨hm, by rintro ⟨l, x, hf⟩; cases hf⟩

theorem safe_applyUnary (t : Token) (v : Value) : Safe (applyUnary t v) Value.Formed := by
  unfold applyUnary
  split
  · exact safe_pure trivial
  · exact safe_pure trivial
  · exact safe_fail (not_unknownOperator (by simp))

/-- **An operator of two sides that the parser gives is one that the evaluator knows.** -/
theorem safe_applyBinary {t : Token} (ht : t.kind ∈ binaryKinds) (v w : Value) :
    Safe (applyBinary t v w) Value.Formed := by
  unfold applyBinary
  split
  · exact safe_pure trivial
  · exact safe_pure trivial
  · split
    · exact safe_pure trivial
    · exact safe_pure trivial
    · exact safe_fail (not_unknownOperator (by simp))
  · next hequal hbang hplus =>
    split
    · unfold applyArithmetic
      split
      iterate 7 exact safe_pure trivial
      simp_all [binaryKinds]
    · exact safe_fail (not_unknownOperator (by simp))

theorem safe_native (f : Native) {vs : List Value} (hvs : ∀ v ∈ vs, v.Formed) : Safe (f.apply vs) Value.Formed := by
  unfold Native.apply
  split
  · exact fun m hm => ⟨hm, trivial⟩
  · refine safe_pure ?_
    cases vs with
    | nil => trivial
    | cons v vs => exact hvs v List.mem_cons_self
  · refine safe_pure ?_
    cases hl : vs.getLast? with
    | none => trivial
    | some v => exact hvs v (List.mem_of_getLast? hl)
  · exact safe_pure trivial

end

/-! ## Trees -/

section

open Run

/-- Calls of well-formed functions are safe. -/
def SafeCalls (inv : Invoke) : Prop := ∀ f vs, (Value.callable f).Formed → (∀ v ∈ vs, v.Formed) →
  Safe (inv f vs) Value.Formed

variable {inv : Invoke}

theorem safe_applyCall (hi : SafeCalls inv) (t : Token) {v : Value} (hv : v.Formed) {vs : List Value}
    (hvs : ∀ v ∈ vs, v.Formed) : Safe (applyCall inv t v vs) Value.Formed := by
  unfold applyCall
  split
  · exact .choose (hi _ vs hv hvs) (safe_fail (not_unknownOperator (by simp)))
  · exact safe_fail (not_unknownOperator (by simp))

mutual
theorem safe_eval (hi : SafeCalls inv) : ∀ e : Expr, e.Formed → Safe (e.eval inv) Value.Formed
  | .literal v, _ => safe_pure (Value.formed_ofLiteral v)
  | .variable id name, _ => safe_lookUp id name
  | .assign id name e, h => (safe_eval hi e h.2).bind fun _ hv => (safe_assign id name hv).bind fun _ _ => safe_pure hv
  | .group e, h => safe_eval hi e h
  | .unary t e, h => (safe_eval hi e h.2.2).bind fun v _ => safe_applyUnary t v
  | .binary l _ r, h => (safe_eval hi l h.2.2.1).bind fun v _ => (safe_eval hi r h.2.2.2).bind fun w _ =>
      safe_applyBinary h.1 v w
  | .logical l _ r, h => (safe_eval hi l h.2.2.1).bind fun _ hv => .choose (safe_pure hv) (safe_eval hi r h.2.2.2)
  | .call e t es, h => (safe_eval hi e h.2.2.1).bind fun _ hv => (safe_evalAll hi es h.2.2.2).bind fun _ hvs =>
      safe_applyCall hi t hv hvs

theorem safe_evalAll (hi : SafeCalls inv) : ∀ es : List Expr, Expr.FormedAll es →
    Safe (Expr.evalAll inv es) fun vs => ∀ v ∈ vs, v.Formed
  | [], _ => safe_pure (by simp)
  | e :: es, h => (safe_eval hi e h.1).bind fun _ hv => (safe_evalAll hi es h.2).bind fun _ hvs =>
      safe_pure (List.forall_mem_cons.2 ⟨hv, hvs⟩)
end

theorem safe_optionalEval (hi : SafeCalls inv) : ∀ o : Option Expr, (∀ e ∈ o, e.Formed) →
    Safe (optionalEval inv o) Value.Formed
  | none, _ => safe_pure trivial
  | some e, h => safe_eval hi e (h e rfl)

theorem safe_loop {test : Run Value} {body : Run Unit} (ht : Safe test Value.Formed) (hb : Safe body fun _ => True) :
    ∀ n, Safe (loop test body n) fun _ => True
  | 0 => fun _ hm => ⟨hm, trivial⟩
  | n + 1 => by
    rw [loop_succ]
    exact ht.bind fun _ _ => .choose (hb.bind fun _ _ => safe_loop ht hb n) (safe_pure trivial)

mutual
theorem safe_exec (hi : SafeCalls inv) (n : Nat) : ∀ s : Stmt, s.Formed → Safe (s.exec inv n) fun _ => True
  | .block body, h => safe_newFrameHere.bind fun frame _ => (safe_execAll hi n body h).within frame
  | .expression e, h => (safe_eval hi e h).bind fun _ _ => safe_pure trivial
  | .function name _ _, h => fun m hm => ⟨hm.define m.here name.lexeme h.2.2, trivial⟩
  | .conditional e yes none, h => (safe_eval hi e h.1).bind fun _ _ =>
      .choose (safe_exec hi n yes h.2.2.1) (safe_pure trivial)
  | .conditional e yes (some no), h => (safe_eval hi e h.1).bind fun _ _ =>
      .choose (safe_exec hi n yes h.2.2.1) (safe_exec hi n no h.2.2.2.2)
  | .print e, h => (safe_eval hi e h).bind fun v _ => safe_print v.display
  | .return _ o, h => (safe_optionalEval hi o h.2).bind fun _ hv _ hm => ⟨hm, hv⟩
  | .var name o, h => (safe_optionalEval hi o h.2).bind fun _ hv => safe_define name.lexeme hv
  | .while e body, h => safe_loop (safe_eval hi e h.1) (safe_exec hi n body h.2.2) n

theorem safe_execAll (hi : SafeCalls inv) (n : Nat) : ∀ ss : List Stmt, Stmt.FormedAll ss →
    Safe (Stmt.execAll inv n ss) fun _ => True
  | [], _ => safe_pure trivial
  | s :: ss, h => (safe_exec hi n s h.1).bind fun _ _ => safe_execAll hi n ss h.2
end

theorem safe_bindParams (frame : FrameId) : ∀ (ps : List Token) (vs : List Value), (∀ v ∈ vs, v.Formed) →
    Safe (bindParams frame ps vs) fun _ => True
  | [], _, _ => safe_pure trivial
  | _ :: _, [], _ => safe_pure trivial
  | p :: ps, v :: vs, h => (safe_defineIn frame p.lexeme (h v List.mem_cons_self)).bind fun _ _ =>
      safe_bindParams frame ps vs fun w hw => h w (List.mem_cons_of_mem v hw)

/-- **Calls are safe**, by induction on the bound. -/
theorem safe_invoke : ∀ n, SafeCalls (invoke n)
  | 0, .native _ f, _, _, hvs => safe_native f hvs
  | _ + 1, .native _ f, _, _, hvs => safe_native f hvs
  | 0, .closure _ _ _, _, _, _ => fun _ hm => ⟨hm, trivial⟩
  | n + 1, .closure _ f frame, vs, hf, hvs => (safe_newFrame frame).bind fun inner _ =>
      (safe_bindParams inner f.params vs hvs).bind fun _ _ =>
        ((safe_execAll (safe_invoke n) n f.body hf).within inner).result

end

/-! ## Sessions -/

theorem formed_analyze (fresh : Nat) (source : String) : Stmt.FormedAll (analyze fresh source).statements := by
  simp only [analyze, readSource]
  exact (parse_shaped fresh _).formed

namespace Session

/-- One text: the functions stay well formed, and no operator is unknown. -/
theorem run_safe {s : Session} (hs : s.machine.store.Formed) (t : Text) :
    (s.run t.bound t.source).2.machine.store.Formed ∧
      ∀ f, (s.run t.bound t.source).1 = .runtimeFault f → ¬ f.UnknownOperator := by
  by_cases ha : s.Accepts t.source
  · rw [run_accepted ha]
    have hss := formed_analyze s.fresh t.source
    generalize analyze s.fresh t.source = a at hss ⊢
    obtain ⟨hm, hsafe⟩ := safe_execAll (safe_invoke t.bound) t.bound a.statements hss (s.starting t.bound a).machine hs
    refine ⟨?_, fun f hf => ?_⟩
    · rw [ended, interpret_snd]
      exact hm
    · rw [ended, interpret_eq] at hf
      dsimp only at hf
      split at hf
      · generalize (Stmt.execAll (invoke t.bound) t.bound a.statements (s.starting t.bound a).machine).1 = signal at *
        cases signal <;> cases hf
        exact hsafe
      · cases hf
        rintro ⟨l, x, hf⟩
        cases hf
  · rw [run_rejected ha]
    exact ⟨hs, fun f hf => by cases hf⟩

theorem store_formed (sink : Sink) (clock : Nat → Number) (texts : List Text) :
    ((start sink clock).after texts).machine.store.Formed := by
  induction texts using List.reverseRecOn with
  | nil =>
    have hempty : (Store.empty.add none).2.Formed := fun f c hc => by cases Store.mem_cells_add hc
    exact hempty.define Machine.globals _ (v := .callable (.native 0 ⟨.clock, 0⟩)) trivial
  | append_singleton texts t ih =>
    rw [after_snoc]
    exact (run_safe ih t).1

/-- **Every tree that is read is well formed**, for all tokens and however many faults are met: operators, names,
parentheses and keywords are tokens of their kinds, no branch and no body of a loop is a declaration, and no operand
binds looser than its place allows.  So no run of a text, whatever was run before, ends at an operator that is not
known. -/
theorem parsed_trees_well_formed :
    (∀ (fresh : Nat) (tokens : List Token), ∀ s ∈ (parse fresh tokens).statements, s.Formed) ∧
      ∀ (sink : Sink) (clock : Nat → Number) (texts : List Text) (t : Text) (line : Nat) (lexeme : String),
        (((start sink clock).after texts).run t.bound t.source).1 ≠
          .runtimeFault (.run line (.unknownOperator lexeme)) := by
  refine ⟨fun fresh tokens => (Stmt.formedAll_iff _).1 (parse_shaped fresh tokens).formed, ?_⟩
  intro sink clock texts t line lexeme h
  exact (run_safe (store_formed sink clock texts) t).2 _ h ⟨line, lexeme, rfl⟩

end Session
end Scriptlet
