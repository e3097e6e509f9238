import Mathlib
import Scriptlet.Proofs.ForLoops
import Scriptlet.Proofs.Formation
import Scriptlet.Proofs.NumberTexts
import Scriptlet.Session

/-!
# What a tree is made of

A tree that is read without a fault has no tokens but those of its text, and no literals but the values of such tokens
and the `true` of a `for` statement without a test.  So every token of it has the text of its kind, and every literal
is written in some way (`readSource_made`).
-/
namespace Scriptlet

section

variable (T : Token → Prop) (V : Literal → Prop)

mutual
/-- All tokens of an expression are such tokens, all its literals such literals. -/
def Expr.Made : Expr → Prop
  | .literal value => V value
  | .variable _ name => T name
  | .assign _ name value => T name ∧ value.Made
  | .group inner => inner.Made
  | .unary operator right => T operator ∧ right.Made
  | .binary left operator right => left.Made ∧ T operator ∧ right.Made
  | .logical left operator right => left.Made ∧ T operator ∧ right.Made
  | .call callee paren arguments => callee.Made ∧ T paren ∧ Expr.MadeAll arguments

def Expr.MadeAll : List Expr → Prop
  | [] => True
  | e :: es => e.Made ∧ Expr.MadeAll es
end

mutual
def Stmt.Made : Stmt → Prop
  | .block body => Stmt.MadeAll body
  | .expression value => value.Made T V
  | .function name params body => T name ∧ (∀ p ∈ params, T p) ∧ Stmt.MadeAll body
  | .conditional test yes no => test.Made T V ∧ yes.Made ∧
      match no with
      | none => True
      | some s => s.Made
  | .print value => value.Made T V
  | .return keyword value => T keyword ∧ ∀ e ∈ value, e.Made T V
  | .var name initializer => T name ∧ ∀ e ∈ initializer, e.Made T V
  | .while test body => test.Made T V ∧ body.Made

def Stmt.MadeAll : List Stmt → Prop
  | [] => True
  | s :: ss => s.Made ∧ Stmt.MadeAll ss
end

end

variable {T : Token → Prop} {V : Literal → Prop}

theorem Stmt.madeAll_iff (ss : List Stmt) : Stmt.MadeAll T V ss ↔ ∀ s ∈ ss, s.Made T V := by
  induction ss with
  | nil => simp [Stmt.MadeAll]
  | cons s ss ih => simp [Stmt.MadeAll, ih]

section

variable [DecidablePred T] [DecidablePred V]

mutual
/-- Whether a tree is made of such tokens and literals can be computed. -/
def Expr.decidableMade : ∀ e : Expr, Decidable (e.Made T V)
  | .literal value => inferInstanceAs (Decidable (V value))
  | .variable _ name => inferInstanceAs (Decidable (T name))
  | .assign _ _ value => @instDecidableAnd _ _ _ (Expr.decidableMade value)
  | .group inner => Expr.decidableMade inner
  | .unary _ right => @instDecidableAnd _ _ _ (Expr.decidableMade right)
  | .binary left _ right =>
    @instDecidableAnd _ _ (Expr.decidableMade left) (@instDecidableAnd _ _ _ (Expr.decidableMade right))
  | .logical left _ right =>
    @instDecidableAnd _ _ (Expr.decidableMade left) (@instDecidableAnd _ _ _ (Expr.decidableMade right))
  | .call callee _ arguments =>
    @instDecidableAnd _ _ (Expr.decidableMade callee) (@instDecidableAnd _ _ _ (Expr.decidableMadeAll arguments))

def Expr.decidableMadeAll : ∀ es : List Expr, Decidable (Expr.MadeAll T V es)
  | [] => .isTrue trivial
  | e :: es => @instDecidableAnd _ _ (Expr.decidableMade e) (Expr.decidableMadeAll es)
end

instance : DecidablePred (Expr.Made T V) := Expr.decidableMade

mutual
def Stmt.decidableMade : ∀ s : Stmt, Decidable (s.Made T V)
  | .block body => Stmt.decidableMadeAll body
  | .expression value => Expr.decidableMade value
  | .function _ _ body => @instDecidableAnd _ _ _ (@instDecidableAnd _ _ _ (Stmt.decidableMadeAll body))
  | .conditional _ yes none => @instDecidableAnd _ _ _
    (@instDecidableAnd _ _ (Stmt.decidableMade yes) (.isTrue trivial))
  | .conditional _ yes (some no) =>
    @instDecidableAnd _ _ _ (@instDecidableAnd _ _ (Stmt.decidableMade yes) (Stmt.decidableMade no))
  | .print value => Expr.decidableMade value
  | .return keyword value => inferInstanceAs (Decidable (T keyword ∧ ∀ e ∈ value, e.Made T V))
  | .var name initializer => inferInstanceAs (Decidable (T name ∧ ∀ e ∈ initializer, e.Made T V))
  | .while _ body => @instDecidableAnd _ _ _ (Stmt.decidableMade body)

def Stmt.decidableMadeAll : ∀ ss : List Stmt, Decidable (Stmt.MadeAll T V ss)
  | [] => .isTrue trivial
  | s :: ss => @instDecidableAnd _ _ (Stmt.decidableMade s) (Stmt.decidableMadeAll ss)
end

instance : DecidablePred (Stmt.Made T V) := Stmt.decidableMade

end

/-! ## Parts of statements -/

theorem Stmt.Made.parts {s : Stmt} (h : s.Made T V) : ∀ t ∈ s.parts, t.Made T V := by
  cases s with
  | block body => exact (Stmt.madeAll_iff body).1 h
  | function name params body => exact (Stmt.madeAll_iff body).1 h.2.2
  | conditional test yes no =>
    cases no with
    | none => simpa [Stmt.parts] using h.2.1
    | some no => simpa [Stmt.parts] using h.2
  | «while» test body => simpa [Stmt.parts] using h.2
  | _ => simp [Stmt.parts]

theorem Stmt.Formed.parts {s : Stmt} (h : s.Formed) : ∀ t ∈ s.parts, t.Formed := by
  cases s with
  | block body => exact (Stmt.formedAll_iff body).1 h
  | function name params body => exact (Stmt.formedAll_iff body).1 h.2.2
  | conditional test yes no =>
    cases no with
    | none => simpa [Stmt.parts] using h.2.2.1
    | some no => simpa [Stmt.parts] using ⟨h.2.2.1, h.2.2.2.2⟩
  | «while» test body => simpa [Stmt.parts] using h.2.2
  | _ => simp [Stmt.parts]

/-! ## Derivations -/

namespace Grammar

/-- The values of such tokens are such literals. -/
def Values (T : Token → Prop) (V : Literal → Prop) : Prop := ∀ t v, T t → literalOf? t.kind = some v → V v

mutual
theorem Phrase.made_build (hV : Values T V) {s : Symbol} : ∀ (p : Phrase s) (k : Nat), (∀ t ∈ p.yield, T t) →
    (p.build k).1.Made T V
  | .assign name equal value, k, h => by
    rw [Phrase.yield, List.forall_mem_cons, List.forall_mem_cons] at h
    exact ⟨h.1, Phrase.made_build hV value _ h.2.2⟩
  | .operation value, k, h => Phrase.made_build hV value k h
  | .chain first rest, k, h => by
    rw [Phrase.yield, List.forall_mem_append] at h
    exact Tail.made_build hV rest _ _ (Phrase.made_build hV first k h.1) h.2
  | .signed sign right, k, h => by
    rw [Phrase.yield, List.forall_mem_cons] at h
    exact ⟨h.1, Phrase.made_build hV right k h.2⟩
  | .unsigned value, k, h => Phrase.made_build hV value k h
  | .call callee lists, k, h => by
    rw [Phrase.yield, List.forall_mem_append] at h
    exact Lists.made_build hV lists _ _ (Phrase.made_build hV callee k h.1) h.2
  | .literal token value hvalue, k, h => hV token value (h token (List.mem_singleton_self token)) hvalue
  | .named token, k, h => h token.1 (List.mem_singleton_self token.1)
  | .group opening inner closing, k, h => by
    rw [Phrase.yield, List.forall_mem_cons, List.forall_mem_append] at h
    exact Phrase.made_build hV inner k h.2.1

theorem Tail.made_build (hV : Values T V) {level : Parse.Level} : ∀ (rest : Tail level) (left : Expr) (k : Nat),
    left.Made T V → (∀ t ∈ rest.yield, T t) → (rest.build left k).1.Made T V
  | .done, left, k, hl, _ => hl
  | .more operator right rest, left, k, hl, h => by
    rw [Tail.yield, List.forall_mem_cons, List.forall_mem_append] at h
    have hright := Phrase.made_build hV right k h.2.1
    refine Tail.made_build hV rest _ _ ?_ h.2.2
    cases level <;> exact ⟨hl, h.1, hright⟩

theorem Lists.made_build (hV : Values T V) : ∀ (lists : Lists) (callee : Expr) (k : Nat), callee.Made T V →
    (∀ t ∈ lists.yield, T t) → (lists.build callee k).1.Made T V
  | .done, callee, k, hc, _ => hc
  | .empty opening closing rest, callee, k, hc, h => by
    rw [Lists.yield, List.forall_mem_cons, List.forall_mem_cons] at h
    exact Lists.made_build hV rest _ _ ⟨hc, h.2.1, trivial⟩ h.2.2
  | .filled opening arguments closing rest, callee, k, hc, h => by
    rw [Lists.yield, List.forall_mem_cons, List.forall_mem_append, List.forall_mem_cons] at h
    exact Lists.made_build hV rest _ _ ⟨hc, h.2.2.1, Arguments.made_build hV arguments k h.2.1⟩ h.2.2.2

theorem Arguments.made_build (hV : Values T V) : ∀ (arguments : Arguments) (k : Nat), (∀ t ∈ arguments.yield, T t) →
    Expr.MadeAll T V (arguments.build k).1
  | .last value, k, h => ⟨Phrase.made_build hV value k h, trivial⟩
  | .more value comma rest, k, h => by
    rw [Arguments.yield, List.forall_mem_append, List.forall_mem_cons] at h
    exact ⟨Phrase.made_build hV value k h.1, Arguments.made_build hV rest _ h.2.2⟩
end

theorem Optional.made_build (hV : Values T V) (o : Optional) (k : Nat) (h : ∀ t ∈ o.yield, T t) :
    ∀ e ∈ (o.build k).1, e.Made T V := by
  cases o with
  | none => simp [Optional.build]
  | some value => simpa [Optional.build] using Phrase.made_build hV value k h

theorem VarForm.made_build (hV : Values T V) (v : VarForm) (k : Nat) (h : ∀ t ∈ v.yield, T t) :
    (v.build k).1.Made T V := by
  rw [VarForm.yield, List.forall_mem_cons, List.forall_mem_cons, List.forall_mem_append] at h
  refine ⟨h.2.1, Optional.made_build hV _ k ?_⟩
  cases hi : v.initializer with
  | none => simp [Initializer.value?, Optional.yield]
  | some equal value =>
    rw [hi, Initializer.yield, List.forall_mem_cons] at h
    exact h.2.2.1.2

theorem ForStart.made_build (hV : Values T V) (f : ForStart) (k : Nat) (h : ∀ t ∈ f.yield, T t) :
    ∀ s ∈ (f.build k).1, s.Made T V := by
  cases f with
  | none semicolon => simp [ForStart.build]
  | var form => simpa [ForStart.build] using VarForm.made_build hV form k h
  | expression value semicolon =>
    rw [ForStart.yield, List.forall_mem_append] at h
    simpa [ForStart.build, Stmt.Made] using Phrase.made_build hV value k h.1

theorem Parameters.forall_names : ∀ ps : Parameters, (∀ t ∈ ps.yield, T t) → ∀ t ∈ ps.names, T t
  | .last _, h => h
  | .more name comma rest, h => by
    rw [Parameters.yield, List.forall_mem_cons, List.forall_mem_cons] at h
    rw [Parameters.names, List.forall_mem_cons]
    exact ⟨h.1, Parameters.forall_names rest h.2.2⟩

theorem Header.forall_names (header : Header) (h : ∀ t ∈ header.yield, T t) :
    T header.name.1 ∧ ∀ t ∈ header.names, T t := by
  rw [Header.yield, List.forall_mem_cons, List.forall_mem_cons, List.forall_mem_append] at h
  refine ⟨h.1, ?_⟩
  cases hp : header.params with
  | none => simp [Header.names, hp]
  | some ps =>
    rw [hp] at h
    simpa [Header.names, hp] using Parameters.forall_names ps h.2.2.1

end Grammar

/-- A loop that is lowered is made of its parts; a missing test is the literal `true`. -/
theorem Grammar.made_loopOf (ht : V (.bool true)) {start : Option Stmt} {test step : Option Expr} {body : Stmt}
    (hstart : ∀ s ∈ start, s.Made T V) (htest : ∀ e ∈ test, e.Made T V) (hstep : ∀ e ∈ step, e.Made T V)
    (hbody : body.Made T V) : (Grammar.loopOf start test step body).Made T V := by
  have htest : (test.getD (.literal (.bool true))).Made T V := by
    cases test with
    | none => exact ht
    | some e => exact htest e rfl
  cases start <;> cases step <;> simp_all [Grammar.loopOf, Stmt.Made, Stmt.MadeAll]

namespace Grammar

mutual
theorem Form.made_build (hV : Values T V) (ht : V (.bool true)) {r : Rank} : ∀ (form : Form r) (k : Nat),
    (∀ t ∈ form.yield, T t) → (form.build k).1.Made T V
  | .function word header opening body closing, k, h => by
    rw [Form.yield, List.forall_mem_cons, List.forall_mem_append, List.forall_mem_cons, List.forall_mem_append] at h
    obtain ⟨hname, hparams⟩ := header.forall_names h.2.1
    exact ⟨hname, hparams, Forms.made_build hV ht body k h.2.2.2.1⟩
  | .var form, k, h => VarForm.made_build hV form k h
  | .statement form, k, h => Form.made_build hV ht form k h
  | .expression value semicolon, k, h => by
    rw [Form.yield, List.forall_mem_append] at h
    exact Phrase.made_build hV value k h.1
  | .for word clauses body, k, h => by
    rw [Form.yield, List.forall_mem_cons, List.forall_mem_append, ForClauses.yield, List.forall_mem_cons,
      List.forall_mem_append, List.forall_mem_append, List.forall_mem_cons, List.forall_mem_append] at h
    obtain ⟨-, ⟨-, hstart, htest, -, hstep, -⟩, hbody⟩ := h
    exact made_loopOf ht (ForStart.made_build hV _ _ hstart) (Optional.made_build hV _ _ htest)
      (Optional.made_build hV _ _ hstep) (Form.made_build hV ht body _ hbody)
  | .if word condition yes, k, h => by
    rw [Form.yield, List.forall_mem_cons, List.forall_mem_append, Condition.yield, List.forall_mem_cons,
      List.forall_mem_append] at h
    exact ⟨Phrase.made_build hV _ k h.2.1.2.1, Form.made_build hV ht yes _ h.2.2, trivial⟩
  | .ifElse word condition yes other no, k, h => by
    rw [Form.yield, List.forall_mem_cons, List.forall_mem_append, Condition.yield, List.forall_mem_cons,
      List.forall_mem_append, List.forall_mem_append, List.forall_mem_cons, List.forall_mem_cons] at h
    exact ⟨Phrase.made_build hV _ k h.2.1.2.1, Form.made_build hV ht yes _ h.2.2.1,
      Form.made_build hV ht no _ h.2.2.2.2⟩
  | .print word value semicolon, k, h => by
    rw [Form.yield, List.forall_mem_cons, List.forall_mem_append] at h
    exact Phrase.made_build hV value k h.2.1
  | .return word value semicolon, k, h => by
    rw [Form.yield, List.forall_mem_cons, List.forall_mem_append] at h
    exact ⟨h.1, Optional.made_build hV value k h.2.1⟩
  | .while word condition body, k, h => by
    rw [Form.yield, List.forall_mem_cons, List.forall_mem_append, Condition.yield, List.forall_mem_cons,
      List.forall_mem_append] at h
    exact ⟨Phrase.made_build hV _ k h.2.1.2.1, Form.made_build hV ht body _ h.2.2⟩
  | .block opening body closing, k, h => by
    rw [Form.yield, List.forall_mem_cons, List.forall_mem_append] at h
    exact Forms.made_build hV ht body k h.2.1

/-- The statements of a derivation are made of its tokens and their values. -/
theorem Forms.made_build (hV : Values T V) (ht : V (.bool true)) : ∀ (forms : Forms) (k : Nat),
    (∀ t ∈ forms.yield, T t) → Stmt.MadeAll T V (forms.build k).1
  | .nil, k, _ => trivial
  | .cons first rest, k, h => by
    rw [Forms.yield, List.forall_mem_append] at h
    exact ⟨Form.made_build hV ht first k h.1, Forms.made_build hV ht rest _ h.2⟩
end

end Grammar

/-! ## Trees that are read -/

/-- The text of the token is one of its kind. -/
def Token.Written (t : Token) : Prop := Lexeme t.lexeme.toList (some t.kind)

/-- The literal is the value of some text. -/
def Literal.Written (v : Literal) : Prop := ∃ text kind, Lexeme text (some kind) ∧ Grammar.literalOf? kind = some v

theorem Literal.Written.lexeme_number {x : Number} (h : (Literal.number x).Written) :
    ∃ text, Lexeme text (some (.number x)) := by
  obtain ⟨text, kind, hlexeme, hvalue⟩ := h
  have hkind : kind = .number x := by
    cases kind <;> simp_all [Grammar.literalOf?]
  exact ⟨text, hkind ▸ hlexeme⟩

theorem Literal.Written.lexeme_text {s : String} (h : (Literal.text s).Written) :
    ∃ text, Lexeme text (some (.string s)) := by
  obtain ⟨text, kind, hlexeme, hvalue⟩ := h
  have hkind : kind = .string s := by
    cases kind <;> simp_all [Grammar.literalOf?]
  exact ⟨text, hkind ▸ hlexeme⟩

/-- **What is read without a fault is written in the text.** -/
theorem readSource_made {fresh : Nat} {source : String} (h : (readSource fresh source).faults = []) :
    ∀ s ∈ (readSource fresh source).statements, s.Made Token.Written Literal.Written := by
  obtain ⟨-, hparse⟩ := List.append_eq_nil_iff.1 (show faultsOf (scan source) ++ _ = [] from h)
  obtain ⟨d, hyield, hlimited, hnearest⟩ := exists_nearest_of_faults hparse
  have hstatements : (readSource fresh source).statements = (d.build fresh).1 := by
    rw [statements_readSource, parse_of_nearest hyield hlimited hnearest]
  have htrue : Lexeme "true".toList (some .trueWord) := .reserved (by decide)
  have hwritten : ∀ t ∈ d.yield, t.Written := fun t ht => by
    rw [hyield, parsedTokens] at ht
    exact lexeme_of_mem_scan ((List.takeWhile_prefix _).subset ht) (by simpa using List.mem_takeWhile_imp ht)
  have hmade : Stmt.MadeAll Token.Written Literal.Written (d.build fresh).1 :=
    d.made_build (fun t v ht hv => ⟨_, _, ht, hv⟩) ⟨_, _, htrue, rfl⟩ fresh hwritten
  rw [hstatements]
  exact (Stmt.madeAll_iff _).1 hmade

theorem readSource_formed (fresh : Nat) (source : String) : ∀ s ∈ (readSource fresh source).statements, s.Formed := by
  rw [statements_readSource]
  exact (Stmt.formedAll_iff _).1 (parse_shaped fresh _).formed

end Scriptlet
