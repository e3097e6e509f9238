import Mathlib
import Scriptlet.Binding
import Scriptlet.Tree.Occurrence

/-!
# Trees that differ in numbers and lines only

Two trees are alike when they have the same shape, and tokens and node numbers at the same place stand for each other.
What stands for each other is a parameter, as long as tokens keep kind and lexeme (`Likeness`).  Trees that are alike
bind alike (`resolve_alike`).
-/
namespace Scriptlet

/-- Which tokens and which node numbers stand for each other. -/
structure Likeness where
  token : Token → Token → Prop
  number : Nat → Nat → Prop
  kind : ∀ {t t'}, token t t' → t'.kind = t.kind
  lexeme : ∀ {t t'}, token t t' → t'.lexeme = t.lexeme

namespace Likeness

/-- What stands for each other in one way does in the other. -/
structure Le (L L' : Likeness) : Prop where
  token : ∀ {t t'}, L.token t t' → L'.token t t'
  number : ∀ {i i'}, L.number i i' → L'.number i i'

/-- The same for the numbers below a bound only. -/
def below (L : Likeness) (n : Nat) : Likeness where
  token := L.token
  number i i' := i < n ∧ L.number i i'
  kind := L.kind
  lexeme := L.lexeme

theorem below_le (L : Likeness) (n : Nat) : (L.below n).Le L := ⟨id, And.right⟩

theorem below_mono (L : Likeness) {n n' : Nat} (h : n ≤ n') : (L.below n).Le (L.below n') :=
  ⟨id, fun hi => ⟨Nat.lt_of_lt_of_le hi.1 h, hi.2⟩⟩

end Likeness

section

variable (L : Likeness)

mutual
inductive Expr.Alike : Expr → Expr → Prop
  | literal (v : Literal) : Alike (.literal v) (.literal v)
  | variable {i i' t t'} (hi : L.number i i') (ht : L.token t t') : Alike (.variable i t) (.variable i' t')
  | assign {i i' t t' e e'} (hi : L.number i i') (ht : L.token t t') (he : Alike e e') :
      Alike (.assign i t e) (.assign i' t' e')
  | group {e e'} (he : Alike e e') : Alike (.group e) (.group e')
  | unary {t t' e e'} (ht : L.token t t') (he : Alike e e') : Alike (.unary t e) (.unary t' e')
  | binary {t t' l l' r r'} (hl : Alike l l') (ht : L.token t t') (hr : Alike r r') :
      Alike (.binary l t r) (.binary l' t' r')
  | logical {t t' l l' r r'} (hl : Alike l l') (ht : L.token t t') (hr : Alike r r') :
      Alike (.logical l t r) (.logical l' t' r')
  | call {t t' e e' es es'} (he : Alike e e') (ht : L.token t t') (hes : AllAlike es es') :
      Alike (.call e t es) (.call e' t' es')

inductive Expr.AllAlike : List Expr → List Expr → Prop
  | nil : AllAlike [] []
  | cons {e e' es es'} (he : Alike e e') (hes : AllAlike es es') : AllAlike (e :: es) (e' :: es')
end

/-- Expressions that may be missing, alike. -/
abbrev OptionalAlike : Option Expr → Option Expr → Prop := Option.Rel (Expr.Alike L)

mutual
inductive Stmt.Alike : Stmt → Stmt → Prop
  | block {ss ss'} (h : AllAlike ss ss') : Alike (.block ss) (.block ss')
  | expression {e e'} (he : e.Alike L e') : Alike (.expression e) (.expression e')
  | function {t t' ps ps' ss ss'} (ht : L.token t t') (hp : List.Forall₂ L.token ps ps') (h : AllAlike ss ss') :
      Alike (.function t ps ss) (.function t' ps' ss')
  | conditional {e e' s s'} (he : e.Alike L e') (hs : Alike s s') :
      Alike (.conditional e s none) (.conditional e' s' none)
  | alternative {e e' s s' r r'} (he : e.Alike L e') (hs : Alike s s') (hr : Alike r r') :
      Alike (.conditional e s (some r)) (.conditional e' s' (some r'))
  | print {e e'} (he : e.Alike L e') : Alike (.print e) (.print e')
  | return {t t' o o'} (ht : L.token t t') (ho : OptionalAlike L o o') : Alike (.return t o) (.return t' o')
  | var {t t' o o'} (ht : L.token t t') (ho : OptionalAlike L o o') : Alike (.var t o) (.var t' o')
  | while {e e' s s'} (he : e.Alike L e') (hs : Alike s s') : Alike (.while e s) (.while e' s')

inductive Stmt.AllAlike : List Stmt → List Stmt → Prop
  | nil : AllAlike [] []
  | cons {s s' ss ss'} (h : Alike s s') (hs : AllAlike ss ss') : AllAlike (s :: ss) (s' :: ss')
end

/-- Faults of one cause, at tokens that stand for each other. -/
inductive Fault.Alike : Fault → Fault → Prop
  | parse {t t'} (ht : L.token t t') (cause : Cause) : Alike (.parse t.site cause) (.parse t'.site cause)
  | resolve {t t'} (ht : L.token t t') (cause : Cause) : Alike (.resolve t.site cause) (.resolve t'.site cause)
  | run {t t'} (ht : L.token t t') (cause : Cause) : Alike (.run t.line cause) (.run t'.line cause)
  | output (cause : Cause) : Alike (.output cause) (.output cause)

end

variable {L L' : Likeness}

/-- Faults at the same tokens are the same. -/
theorem Fault.Alike.eq (hL : ∀ {t t'}, L.token t t' → t = t') {f f' : Fault} (h : f.Alike L f') : f = f' := by
  cases h with
  | parse ht cause => rw [hL ht]
  | resolve ht cause => rw [hL ht]
  | run ht cause => rw [hL ht]
  | output cause => rfl

/-! ## Equal trees -/

/-- Nothing stands for anything but itself. -/
structure Likeness.Exact (L : Likeness) : Prop where
  token : ∀ {t t'}, L.token t t' → t = t'
  number : ∀ {i i'}, L.number i i' → i = i'

mutual
theorem Expr.Alike.eq (hL : L.Exact) : ∀ {e e' : Expr}, e.Alike L e' → e = e'
  | _, _, .literal v => rfl
  | _, _, .variable hi ht => by rw [hL.number hi, hL.token ht]
  | _, _, .assign hi ht he => by rw [hL.number hi, hL.token ht, Expr.Alike.eq hL he]
  | _, _, .group he => by rw [Expr.Alike.eq hL he]
  | _, _, .unary ht he => by rw [hL.token ht, Expr.Alike.eq hL he]
  | _, _, .binary hl ht hr => by rw [Expr.Alike.eq hL hl, hL.token ht, Expr.Alike.eq hL hr]
  | _, _, .logical hl ht hr => by rw [Expr.Alike.eq hL hl, hL.token ht, Expr.Alike.eq hL hr]
  | _, _, .call he ht hes => by rw [Expr.Alike.eq hL he, hL.token ht, Expr.AllAlike.eq hL hes]

theorem Expr.AllAlike.eq (hL : L.Exact) : ∀ {es es' : List Expr}, Expr.AllAlike L es es' → es = es'
  | _, _, .nil => rfl
  | _, _, .cons he hes => by rw [Expr.Alike.eq hL he, Expr.AllAlike.eq hL hes]
end

theorem OptionalAlike.eq (hL : L.Exact) {o o' : Option Expr} (h : OptionalAlike L o o') : o = o' := by
  cases h with
  | none => rfl
  | some he => rw [he.eq hL]

theorem Likeness.Exact.tokens_eq (hL : L.Exact) {ts ts' : List Token} (h : List.Forall₂ L.token ts ts') : ts = ts' :=
  List.forall₂_eq_eq_eq ▸ h.imp fun _ _ => hL.token

mutual
theorem Stmt.Alike.eq (hL : L.Exact) : ∀ {s s' : Stmt}, s.Alike L s' → s = s'
  | _, _, .block hs => by rw [Stmt.AllAlike.eq hL hs]
  | _, _, .expression he => by rw [he.eq hL]
  | _, _, .function ht hp hs => by rw [hL.token ht, hL.tokens_eq hp, Stmt.AllAlike.eq hL hs]
  | _, _, .conditional he hs => by rw [he.eq hL, Stmt.Alike.eq hL hs]
  | _, _, .alternative he hs hr => by rw [he.eq hL, Stmt.Alike.eq hL hs, Stmt.Alike.eq hL hr]
  | _, _, .print he => by rw [he.eq hL]
  | _, _, .return ht ho => by rw [hL.token ht, OptionalAlike.eq hL ho]
  | _, _, .var ht ho => by rw [hL.token ht, OptionalAlike.eq hL ho]
  | _, _, .while he hs => by rw [he.eq hL, Stmt.Alike.eq hL hs]

theorem Stmt.AllAlike.eq (hL : L.Exact) : ∀ {ss ss' : List Stmt}, Stmt.AllAlike L ss ss' → ss = ss'
  | _, _, .nil => rfl
  | _, _, .cons hs hss => by rw [Stmt.Alike.eq hL hs, Stmt.AllAlike.eq hL hss]
end

/-! ## Another likeness -/

mutual
/-- Trees are alike in another way too if their tokens and numbers are. -/
theorem Expr.Alike.imp (h : ∀ {t t'}, L.token t t' → L'.token t t') : ∀ {e e' : Expr}, e.Alike L e' →
    (∀ o ∈ e.occurrences, ∀ i', L.number o.id i' → L'.number o.id i') → e.Alike L' e'
  | _, _, .literal v, _ => .literal v
  | _, _, .variable hi ht, hn => .variable (hn _ (List.mem_singleton_self _) _ hi) (h ht)
  | _, _, .assign hi ht he, hn => .assign (hn _ (List.mem_append_right _ (List.mem_singleton_self _)) _ hi) (h ht)
      (Expr.Alike.imp h he fun o ho => hn o (List.mem_append_left _ ho))
  | _, _, .group he, hn => .group (Expr.Alike.imp h he hn)
  | _, _, .unary ht he, hn => .unary (h ht) (Expr.Alike.imp h he hn)
  | _, _, .binary hl ht hr, hn => .binary (Expr.Alike.imp h hl fun o ho => hn o (List.mem_append_left _ ho)) (h ht)
      (Expr.Alike.imp h hr fun o ho => hn o (List.mem_append_right _ ho))
  | _, _, .logical hl ht hr, hn => .logical (Expr.Alike.imp h hl fun o ho => hn o (List.mem_append_left _ ho)) (h ht)
      (Expr.Alike.imp h hr fun o ho => hn o (List.mem_append_right _ ho))
  | _, _, .call he ht hes, hn => .call (Expr.Alike.imp h he fun o ho => hn o (List.mem_append_left _ ho)) (h ht)
      (Expr.AllAlike.imp h hes fun o ho => hn o (List.mem_append_right _ ho))

theorem Expr.AllAlike.imp (h : ∀ {t t'}, L.token t t' → L'.token t t') : ∀ {es es' : List Expr},
    Expr.AllAlike L es es' → (∀ o ∈ Expr.occurrencesAll es, ∀ i', L.number o.id i' → L'.number o.id i') →
      Expr.AllAlike L' es es'
  | _, _, .nil, _ => .nil
  | _, _, .cons he hes, hn => .cons (Expr.Alike.imp h he fun o ho => hn o (List.mem_append_left _ ho))
      (Expr.AllAlike.imp h hes fun o ho => hn o (List.mem_append_right _ ho))
end

theorem OptionalAlike.imp (h : ∀ {t t'}, L.token t t' → L'.token t t') {o o' : Option Expr} (ho : OptionalAlike L o o')
    (hn : ∀ p ∈ optionalOccurrences o, ∀ i', L.number p.id i' → L'.number p.id i') : OptionalAlike L' o o' := by
  cases ho with
  | none => exact .none
  | some he => exact .some (he.imp h hn)

mutual
theorem Stmt.Alike.imp (h : ∀ {t t'}, L.token t t' → L'.token t t') : ∀ {s s' : Stmt}, s.Alike L s' →
    (∀ o ∈ s.occurrences, ∀ i', L.number o.id i' → L'.number o.id i') → s.Alike L' s'
  | _, _, .block hs, hn => .block (Stmt.AllAlike.imp h hs hn)
  | _, _, .expression he, hn => .expression (he.imp h hn)
  | _, _, .function ht hp hs, hn => .function (h ht) (hp.imp fun _ _ => h) (Stmt.AllAlike.imp h hs hn)
  | _, _, .conditional he hs, hn => by
    simp only [Stmt.occurrences, List.append_nil, List.mem_append] at hn
    exact .conditional (he.imp h fun o ho => hn o (.inl ho)) (Stmt.Alike.imp h hs fun o ho => hn o (.inr ho))
  | _, _, .alternative he hs hr, hn => by
    simp only [Stmt.occurrences, List.mem_append] at hn
    exact .alternative (he.imp h fun o ho => hn o (.inl (.inl ho)))
      (Stmt.Alike.imp h hs fun o ho => hn o (.inl (.inr ho))) (Stmt.Alike.imp h hr fun o ho => hn o (.inr ho))
  | _, _, .print he, hn => .print (he.imp h hn)
  | _, _, .return ht ho, hn => .return (h ht) (OptionalAlike.imp h ho hn)
  | _, _, .var ht ho, hn => .var (h ht) (OptionalAlike.imp h ho hn)
  | _, _, .while he hs, hn => .while (he.imp h fun o ho => hn o (List.mem_append_left _ ho))
      (Stmt.Alike.imp h hs fun o ho => hn o (List.mem_append_right _ ho))

theorem Stmt.AllAlike.imp (h : ∀ {t t'}, L.token t t' → L'.token t t') : ∀ {ss ss' : List Stmt},
    Stmt.AllAlike L ss ss' → (∀ o ∈ Stmt.occurrencesAll ss, ∀ i', L.number o.id i' → L'.number o.id i') →
      Stmt.AllAlike L' ss ss'
  | _, _, .nil, _ => .nil
  | _, _, .cons hs hss, hn => .cons (Stmt.Alike.imp h hs fun o ho => hn o (List.mem_append_left _ ho))
      (Stmt.AllAlike.imp h hss fun o ho => hn o (List.mem_append_right _ ho))
end

theorem Stmt.Alike.ofFor {start start' : Option Stmt} {test test' step step' : Option Expr} {body body' : Stmt}
    (hs : Option.Rel (Stmt.Alike L) start start') (ht : OptionalAlike L test test') (hp : OptionalAlike L step step')
    (hb : body.Alike L body') : (Stmt.ofFor start test step body).Alike L (Stmt.ofFor start' test' step' body') := by
  have htest : (test.getD (.literal (.bool true))).Alike L (test'.getD (.literal (.bool true))) := by
    cases ht with
    | none => exact .literal _
    | some ht => exact ht
  have hloop : ∀ {b b' : Stmt}, b.Alike L b' → (Stmt.while (test.getD (.literal (.bool true))) b).Alike L
      (Stmt.while (test'.getD (.literal (.bool true))) b') := fun hb => .while htest hb
  cases hs with
  | none =>
    cases hp with
    | none => exact hloop hb
    | some he => exact hloop (.block (.cons hb (.cons (.expression he) .nil)))
  | some hs =>
    cases hp with
    | none => exact .block (.cons hs (.cons (hloop hb) .nil))
    | some he => exact .block (.cons hs (.cons (hloop (.block (.cons hb (.cons (.expression he) .nil)))) .nil))

/-! ## Binding -/

/-- Entries of numbers that stand for each other, with one distance, and faults that are alike. -/
structure Findings.Alike (L : Likeness) (f f' : Findings) : Prop where
  entries : List.Forall₂ (fun a a' => L.number a.1 a'.1 ∧ a.2 = a'.2) f.entries f'.entries
  faults : List.Forall₂ (Fault.Alike L) f.faults f'.faults

namespace Findings.Alike

variable {f f' g g' : Findings}

theorem none : Findings.none.Alike L Findings.none := ⟨.nil, .nil⟩

theorem append (h : f.Alike L f') (h' : g.Alike L g') : (f ++ g).Alike L (f' ++ g') :=
  ⟨List.rel_append h.entries h'.entries, List.rel_append h.faults h'.faults⟩

theorem fault {t t' : Token} (ht : L.token t t') (cause : Cause) :
    (Findings.fault t cause).Alike L (Findings.fault t' cause) := ⟨.nil, .cons (.resolve ht cause) .nil⟩

theorem bound {i i' : Nat} {t t' : Token} (hi : L.number i i') (ht : L.token t t') (scopes : List Scope) :
    (Findings.bound scopes i t).Alike L (Findings.bound scopes i' t') := by
  unfold Findings.bound
  rw [L.lexeme ht]
  split
  · exact ⟨.cons ⟨hi, rfl⟩ .nil, .nil⟩
  · exact none

theorem ite {b : Prop} [Decidable b] (h : f.Alike L f') (h' : g.Alike L g') :
    (if b then f else g).Alike L (if b then f' else g') := by
  split
  · exact h
  · exact h'

end Findings.Alike

mutual
theorem Expr.Alike.findings (scopes : List Scope) : ∀ {e e' : Expr}, e.Alike L e' →
    (e.findings scopes).Alike L (e'.findings scopes)
  | _, _, .literal _ => .none
  | _, _, .variable hi ht => by
    rw [Expr.findings, Expr.findings, L.lexeme ht]
    exact .append (.ite (.fault ht _) .none) (.bound hi ht scopes)
  | _, _, .assign hi ht he => .append (Expr.Alike.findings scopes he) (.bound hi ht scopes)
  | _, _, .group he => by
    rw [Expr.findings, Expr.findings]
    exact Expr.Alike.findings scopes he
  | _, _, .unary _ he => by
    rw [Expr.findings, Expr.findings]
    exact Expr.Alike.findings scopes he
  | _, _, .binary hl _ hr => .append (Expr.Alike.findings scopes hl) (Expr.Alike.findings scopes hr)
  | _, _, .logical hl _ hr => .append (Expr.Alike.findings scopes hl) (Expr.Alike.findings scopes hr)
  | _, _, .call he _ hes => .append (Expr.Alike.findings scopes he) (Expr.AllAlike.findings scopes hes)

theorem Expr.AllAlike.findings (scopes : List Scope) : ∀ {es es' : List Expr}, Expr.AllAlike L es es' →
    (Expr.findingsAll scopes es).Alike L (Expr.findingsAll scopes es')
  | _, _, .nil => .none
  | _, _, .cons he hes => .append (Expr.Alike.findings scopes he) (Expr.AllAlike.findings scopes hes)
end

theorem OptionalAlike.findings (scopes : List Scope) {o o' : Option Expr} (h : OptionalAlike L o o') :
    (optionalFindings scopes o).Alike L (optionalFindings scopes o') := by
  cases h with
  | none => exact .none
  | some he => exact he.findings scopes

theorem ofParams_alike {ps ps' : List Token} (h : List.Forall₂ L.token ps ps') :
    Scope.ofParams ps = Scope.ofParams ps' := by
  unfold Scope.ofParams
  congr 1
  induction h with
  | nil => rfl
  | cons ht _ ih => rw [List.map_cons, List.map_cons, ih, L.lexeme ht]

/-- Statements that are alike declare the same. -/
theorem Stmt.Alike.declare : ∀ {s s' : Stmt}, s.Alike L s' → ∀ scopes : List Scope, s.declare scopes = s'.declare scopes
  | _, _, .block _, _ => rfl
  | _, _, .expression _, _ => rfl
  | _, _, .function ht _ _, _ => by rw [Stmt.declare, Stmt.declare, L.lexeme ht]
  | _, _, .conditional _ hs, scopes => Stmt.Alike.declare hs scopes
  | _, _, .alternative _ hs hr, scopes => by
    rw [Stmt.declare, Stmt.declare, Stmt.Alike.declare hs, Stmt.Alike.declare hr]
  | _, _, .print _, _ => rfl
  | _, _, .return _ _, _ => rfl
  | _, _, .var ht _, _ => by rw [Stmt.declare, Stmt.declare, L.lexeme ht]
  | _, _, .while _ hs, scopes => Stmt.Alike.declare hs scopes

mutual
theorem Stmt.Alike.findings (inside : Bool) : ∀ {s s' : Stmt}, s.Alike L s' → ∀ scopes : List Scope,
    (s.findings inside scopes).Alike L (s'.findings inside scopes)
  | _, _, .block h, scopes => Stmt.AllAlike.findings inside h ([] :: scopes)
  | _, _, .expression he, scopes => he.findings scopes
  | _, _, .function ht hp h, scopes => by
    rw [Stmt.findings, Stmt.findings, L.lexeme ht, ofParams_alike hp]
    exact Stmt.AllAlike.findings true h _
  | _, _, .conditional he hs, scopes => .append
    (.append (he.findings scopes) (Stmt.Alike.findings inside hs scopes)) .none
  | _, _, .alternative he hs hr, scopes => by
    rw [Stmt.findings, Stmt.findings, Stmt.Alike.declare hs]
    exact .append (.append (he.findings scopes) (Stmt.Alike.findings inside hs scopes))
      (Stmt.Alike.findings inside hr _)
  | _, _, .print he, scopes => he.findings scopes
  | _, _, .return ht ho, scopes => .append (.ite .none (.fault ht _)) (OptionalAlike.findings scopes ho)
  | _, _, .var ht ho, scopes => by
    rw [Stmt.findings, Stmt.findings, L.lexeme ht]
    exact OptionalAlike.findings _ ho
  | _, _, .while he hs, scopes => .append (he.findings scopes) (Stmt.Alike.findings inside hs scopes)

theorem Stmt.AllAlike.findings (inside : Bool) : ∀ {ss ss' : List Stmt}, Stmt.AllAlike L ss ss' →
    ∀ scopes : List Scope, (Stmt.findingsAll inside scopes ss).Alike L (Stmt.findingsAll inside scopes ss')
  | _, _, .nil, _ => .none
  | _, _, .cons h hs, scopes => by
    rw [Stmt.findingsAll, Stmt.findingsAll, Stmt.Alike.declare h]
    exact .append (Stmt.Alike.findings inside h scopes) (Stmt.AllAlike.findings inside hs _)
end

/-- **Programs that are alike bind alike.** -/
theorem resolve_alike {program program' : List Stmt} (h : Stmt.AllAlike L program program') :
    (resolve program).Alike L (resolve program') := Stmt.AllAlike.findings false h []

end Scriptlet
