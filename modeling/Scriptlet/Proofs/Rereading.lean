import Mathlib
import Scriptlet.Proofs.Accepted
import Scriptlet.Proofs.Likeness

/-!
# Reading tokens that stand for each other

Every rule of the parser looks at the kind of a token only, so tokens that stand for each other are read alike: the
trees are alike, and so are the faults (`parse_alike`).
-/
namespace Scriptlet

/-- Cursors in front of tokens that stand for each other, with their numbers in step. -/
structure Cursor.Alike (L : Likeness) (c c' : Cursor) : Prop where
  rest : List.Forall₂ L.token c.rest c'.rest
  stop : L.token c.stop c'.stop
  fresh : ∀ i, L.number (c.fresh + i) (c'.fresh + i)
  faults : List.Forall₂ (Fault.Alike L) c.faults c'.faults

variable {L : Likeness}

theorem Cursor.Alike.peek {c c' : Cursor} (h : c.Alike L c') : L.token c.peek c'.peek := by
  obtain ⟨rest, stop, fresh, faults⟩ := c
  obtain ⟨rest', stop', fresh', faults'⟩ := c'
  cases h.rest with
  | nil => exact h.stop
  | cons ht _ => exact ht

theorem Cursor.Alike.note {c c' : Cursor} (h : c.Alike L c') {t t' : Token} (ht : L.token t t') (cause : Cause) :
    (c.note t cause).Alike L (c'.note t' cause) :=
  ⟨h.rest, h.stop, h.fresh, List.rel_append h.faults (.cons (.parse ht cause) .nil)⟩

theorem Cursor.Alike.move {c c' : Cursor} (h : c.Alike L c') {ts ts' : List Token} (hts : List.Forall₂ L.token ts ts') :
    Cursor.Alike L { c with rest := ts } { c' with rest := ts' } := ⟨hts, h.stop, h.fresh, h.faults⟩

theorem Expr.allAlike_of_forall₂ {es es' : List Expr} (h : List.Forall₂ (Expr.Alike L) es es') :
    Expr.AllAlike L es es' := by
  induction h with
  | nil => exact .nil
  | cons he _ ih => exact .cons he ih

namespace Parse

variable {α α' β β' : Type} {R : α → α' → Prop} {Q : β → β' → Prop}

/-- The rules read alike: from cursors that are alike they give results that stand for each other. -/
def Alike (L : Likeness) (R : α → α' → Prop) (p : Parse α) (p' : Parse α') : Prop := ∀ ⦃c c' : Cursor⦄, c.Alike L c' →
  Option.Rel R (p c).1 (p' c').1 ∧ (p c).2.Alike L (p' c').2

/-! ## Parts -/

theorem alike_pure {a : α} {a' : α'} (h : R a a') : Alike L R (pure a) (pure a') := fun _ _ hc => ⟨.some h, hc⟩

theorem Alike.bind {p : Parse α} {p' : Parse α'} {f : α → Parse β} {f' : α' → Parse β'} (h : Alike L R p p')
    (hf : ∀ {a a'}, R a a' → Alike L Q (f a) (f' a')) : Alike L Q (p >>= f) (p' >>= f') := by
  intro c c' hc
  have h := h hc
  rw [bind_def, bind_def]
  rcases hp : p c with ⟨o, d⟩
  rcases hp' : p' c' with ⟨o', d'⟩
  rw [hp, hp'] at h
  obtain ⟨hr, hd⟩ := h
  cases hr with
  | none => exact ⟨.none, hd⟩
  | some ha => exact hf ha hd

theorem Alike.map {p : Parse α} {p' : Parse α'} {f : α → β} {f' : α' → β'} (h : Alike L R p p')
    (hf : ∀ {a a'}, R a a' → Q (f a) (f' a')) : Alike L Q (f <$> p) (f' <$> p') := h.bind fun ha => alike_pure (hf ha)

theorem Alike.ite {p q : Parse α} {p' q' : Parse α'} {b : Prop} [Decidable b] (hp : Alike L R p p')
    (hq : Alike L R q q') :
    Alike L R (if b then p else q) (if b then p' else q') := by
  split
  · exact hp
  · exact hq

/-- A choice by a flag that both have. -/
theorem Alike.choose {b b' : Bool} (hb : b = b') {p q : Parse α} {p' q' : Parse α'} (hp : Alike L R p p')
    (hq : Alike L R q q') : Alike L R (if b = true then p else q) (if b' = true then p' else q') := by
  subst hb
  exact hp.ite hq

theorem alike_peek : Alike L L.token peek peek := fun _ _ hc => ⟨.some hc.peek, hc⟩

theorem alike_sees (kind : Kind) : Alike L Eq (sees kind) (sees kind) := by
  intro c c' hc
  have h : c.sees kind = c'.sees kind := by
    obtain ⟨rest, stop, fresh, faults⟩ := c
    obtain ⟨rest', stop', fresh', faults'⟩ := c'
    cases hc.rest with
    | nil => rfl
    | cons ht _ => simp [Cursor.sees, L.kind ht]
  exact ⟨.some h, hc⟩

theorem alike_atEnd : Alike L Eq atEnd atEnd := by
  intro c c' hc
  have h : c.rest.isEmpty = c'.rest.isEmpty := by
    rw [Bool.eq_iff_iff, List.isEmpty_iff_length_eq_zero, List.isEmpty_iff_length_eq_zero, hc.rest.length_eq]
  exact ⟨.some h, hc⟩

theorem alike_fresh : Alike L L.number fresh fresh := fun _ _ hc =>
  ⟨.some (hc.fresh 0), hc.rest, hc.stop, fun i => by
    have := hc.fresh (1 + i)
    rwa [← Nat.add_assoc, ← Nat.add_assoc] at this, hc.faults⟩

theorem alike_take? (p : Kind → Bool) : Alike L (Option.Rel L.token) (take? p) (take? p) := by
  intro c c' hc
  unfold take?
  obtain ⟨rest, stop, fresh, faults⟩ := c
  obtain ⟨rest', stop', fresh', faults'⟩ := c'
  cases hc.rest with
  | nil => exact ⟨.some .none, hc⟩
  | cons ht hts =>
    dsimp only
    rw [L.kind ht]
    split
    · exact ⟨.some (.some ht), hc.move hts⟩
    · exact ⟨.some .none, hc⟩

theorem alike_fail (what : String) : Alike L R (fail what) (fail what) := fun _ _ hc => ⟨.none, hc.note hc.peek _⟩

theorem alike_note {t t' : Token} (ht : L.token t t') (cause : Cause) :
    Alike L (fun _ _ => True) (note t cause) (note t' cause) := fun _ _ hc => ⟨.some trivial, hc.note ht cause⟩

theorem alike_accept (kind : Kind) : Alike L Eq (accept kind) (accept kind) :=
  (alike_take? _).bind fun ht => alike_pure (by cases ht <;> rfl)

theorem alike_expect (kind : Kind) (what : String) : Alike L L.token (expect kind what) (expect kind what) := by
  refine (alike_take? _).bind fun ht => ?_
  cases ht with
  | none => exact alike_fail what
  | some ht => exact alike_pure ht

theorem skip_alike {ts ts' : List Token} (h : List.Forall₂ L.token ts ts') :
    List.Forall₂ L.token (skip ts) (skip ts') := by
  induction h with
  | nil => exact .nil
  | @cons t t' ts ts' ht hts ih =>
    have hh : ts.head?.any (·.kind.beginsStatement) = ts'.head?.any (·.kind.beginsStatement) := by
      cases hts with
      | nil => rfl
      | cons hu _ => simp [L.kind hu]
    unfold skip
    rw [L.kind ht, hh]
    split
    · exact hts
    split
    · exact hts
    · exact ih

theorem Alike.recovering {p : Parse α} {p' : Parse α'} (h : Alike L R p p') :
    Alike L (Option.Rel R) (recovering p) (recovering p') := by
  intro c c' hc
  have h := h hc
  unfold Parse.recovering
  rcases hp : p c with ⟨o, d⟩
  rcases hp' : p' c' with ⟨o', d'⟩
  rw [hp, hp'] at h
  obtain ⟨hr, hd⟩ := h
  cases hr with
  | none => exact ⟨.some .none, hd.move (skip_alike hd.rest)⟩
  | some ha => exact ⟨.some (.some ha), hd⟩

theorem Alike.separated {item : Nat → Parse α} {item' : Nat → Parse α'} (h : ∀ i, Alike L R (item i) (item' i)) :
    ∀ n i, Alike L (List.Forall₂ R) (separated item n i) (separated item' n i)
  | 0, i => (h i).bind fun ha => alike_pure (.cons ha .nil)
  | n + 1, i => (h i).bind fun ha => (alike_accept _).bind fun hb =>
      .choose hb ((Alike.separated h n (i + 1)).bind fun has => alike_pure (.cons ha has)) (alike_pure (.cons ha .nil))

theorem Alike.listed {item : Parse α} {item' : Parse α'} (h : Alike L R item item') (what : String) (n : Nat) :
    Alike L (List.Forall₂ R) (listed item what n) (listed item' what n) :=
  (alike_sees _).bind fun hb => .choose hb (alike_pure .nil) <| .separated (fun _ =>
    .ite (alike_peek.bind fun ht => (alike_note ht _).bind fun _ => h) h) n 0

/-! ## Expressions -/

section

variable {e e' : Parse Expr}

theorem alike_primary (h : Alike L (Expr.Alike L) e e') : Alike L (Expr.Alike L) (primary e) (primary e') := by
  refine (alike_take? _).bind fun ht => ?_
  cases ht with
  | none => exact alike_fail _
  | some ht =>
    dsimp only
    rw [L.kind ht]
    split
    any_goals exact alike_pure (.literal _)
    · exact alike_fresh.bind fun hi => alike_pure (.variable hi ht)
    · exact h.bind fun he => (alike_expect _ _).bind fun _ => alike_pure (.group he)

theorem alike_calls (h : Alike L (Expr.Alike L) e e') : ∀ n {callee callee' : Expr}, callee.Alike L callee' →
    Alike L (Expr.Alike L) (calls e n callee) (calls e' n callee')
  | 0, _, _, hc => alike_pure hc
  | n + 1, _, _, hc => (alike_accept _).bind fun hb => .choose hb
      ((h.listed _ n).bind fun hes => (alike_expect _ _).bind fun ht =>
        alike_calls h n (.call hc ht (Expr.allAlike_of_forall₂ hes)))
      (alike_pure hc)

theorem alike_unary (h : Alike L (Expr.Alike L) e e') : ∀ n, Alike L (Expr.Alike L) (unary e n) (unary e' n)
  | 0 => h
  | n + 1 => by
    refine (alike_take? _).bind fun ht => ?_
    cases ht with
    | none => exact h
    | some ht => exact (alike_unary h n).bind fun hr => alike_pure (.unary ht hr)

theorem join_alike (level : Level) {l l' r r' : Expr} {t t' : Token} (hl : l.Alike L l') (ht : L.token t t')
    (hr : r.Alike L r') : (level.join l t r).Alike L (level.join l' t' r') := by
  unfold Level.join
  split
  · exact .logical hl ht hr
  · exact .logical hl ht hr
  · exact .binary hl ht hr

theorem alike_joined (level : Level) (h : Alike L (Expr.Alike L) e e') : ∀ n {l l' : Expr}, l.Alike L l' →
    Alike L (Expr.Alike L) (joined level e n l) (joined level e' n l')
  | 0, _, _, hl => alike_pure hl
  | n + 1, _, _, hl => by
    refine (alike_take? _).bind fun ht => ?_
    cases ht with
    | none => exact alike_pure hl
    | some ht => exact h.bind fun hr => alike_joined level h n (join_alike level hl ht hr)

theorem alike_chain (level : Level) (n : Nat) (h : Alike L (Expr.Alike L) e e') :
    Alike L (Expr.Alike L) (chain level n e) (chain level n e') := h.bind fun hl => alike_joined level h n hl

theorem alike_operation (n : Nat) (h : Alike L (Expr.Alike L) e e') :
    Alike L (Expr.Alike L) (operation n e) (operation n e') :=
  alike_chain _ n <| alike_chain _ n <| alike_chain _ n <| alike_chain _ n <| alike_chain _ n <| alike_chain _ n <|
    alike_unary ((alike_primary h).bind fun hc => alike_calls h n hc) n

theorem alike_assignment (n : Nat) (h : Alike L (Expr.Alike L) e e') :
    Alike L (Expr.Alike L) (assignment n e) (assignment n e') := by
  refine (alike_operation n h).bind fun htarget => (alike_take? _).bind fun ht => ?_
  cases ht with
  | none => exact alike_pure htarget
  | some ht =>
    refine h.bind fun hv => ?_
    cases htarget with
    | «variable» _ hname => exact alike_fresh.bind fun hi => alike_pure (.assign hi hname hv)
    | literal v => exact (alike_note ht _).bind fun _ => alike_pure (.literal v)
    | assign hi hname he => exact (alike_note ht _).bind fun _ => alike_pure (.assign hi hname he)
    | group he => exact (alike_note ht _).bind fun _ => alike_pure (.group he)
    | unary hu he => exact (alike_note ht _).bind fun _ => alike_pure (.unary hu he)
    | binary hl hu hr => exact (alike_note ht _).bind fun _ => alike_pure (.binary hl hu hr)
    | logical hl hu hr => exact (alike_note ht _).bind fun _ => alike_pure (.logical hl hu hr)
    | call he hu hes => exact (alike_note ht _).bind fun _ => alike_pure (.call he hu hes)

end

theorem alike_expression : ∀ n, Alike L (Expr.Alike L) (expression n) (expression n)
  | 0 => alike_fail _
  | n + 1 => alike_assignment (n + 1) (alike_expression n)

/-! ## Statements -/

theorem alike_ended (n : Nat) (what : String) : Alike L (Expr.Alike L) (ended n what) (ended n what) :=
  (alike_expression n).bind fun he => (alike_expect _ _).bind fun _ => alike_pure he

theorem alike_expressionStatement (n : Nat) :
    Alike L (Stmt.Alike L) (expressionStatement n) (expressionStatement n) :=
  (alike_ended n _).bind fun he => alike_pure (.expression he)

theorem alike_printStatement (n : Nat) : Alike L (Stmt.Alike L) (printStatement n) (printStatement n) :=
  (alike_ended n _).bind fun he => alike_pure (.print he)

theorem alike_optionalUpTo (n : Nat) (kind : Kind) (what : String) {next : Option Expr → Parse β}
    {next' : Option Expr → Parse β'} (h : ∀ {o o'}, OptionalAlike L o o' → Alike L Q (next o) (next' o')) :
    Alike L Q (optionalUpTo n kind what next) (optionalUpTo n kind what next') :=
  (alike_sees _).bind fun hb => .choose hb
    ((alike_pure .none).bind fun ho => (alike_expect _ _).bind fun _ => h ho)
    (((alike_expression n).map .some).bind fun ho => (alike_expect _ _).bind fun _ => h ho)

theorem alike_returnStatement (n : Nat) {t t' : Token} (ht : L.token t t') :
    Alike L (Stmt.Alike L) (returnStatement n t) (returnStatement n t') := by
  rw [returnStatement_eq, returnStatement_eq]
  exact alike_optionalUpTo n _ _ fun ho => alike_pure (.return ht ho)

theorem alike_varDeclaration (n : Nat) : Alike L (Stmt.Alike L) (varDeclaration n) (varDeclaration n) := by
  have h : ∀ {t t' : Token} {o o' : Option Expr}, L.token t t' → OptionalAlike L o o' → Alike L (Stmt.Alike L)
      (expect .semicolon "';' after variable declaration" >>= fun _ => pure (Stmt.var t o))
      (expect .semicolon "';' after variable declaration" >>= fun _ => pure (Stmt.var t' o')) :=
    fun ht ho => (alike_expect _ _).bind fun _ => alike_pure (.var ht ho)
  exact (alike_expect _ _).bind fun ht => (alike_accept _).bind fun hb =>
    .choose hb (((alike_expression n).map .some).bind (h ht)) ((alike_pure .none).bind (h ht))

section

variable {statement statement' : Parse Stmt} {body body' : Parse (List Stmt)}

theorem alike_ifStatement (n : Nat) (hs : Alike L (Stmt.Alike L) statement statement') :
    Alike L (Stmt.Alike L) (ifStatement n statement) (ifStatement n statement') :=
  (alike_expect _ _).bind fun _ => (alike_expression n).bind fun he => (alike_expect _ _).bind fun _ =>
    hs.bind fun hy => (alike_accept _).bind fun hb => .choose hb
      ((hs.map (Q := Option.Rel (Stmt.Alike L)) .some).bind fun hr => alike_pure (by
        cases hr with
        | some hr => exact .alternative he hy hr
        | none => exact .conditional he hy))
      ((alike_pure (R := Option.Rel (Stmt.Alike L)) .none).bind fun hr => alike_pure (by
        cases hr with
        | some hr => exact .alternative he hy hr
        | none => exact .conditional he hy))

theorem alike_whileStatement (n : Nat) (hs : Alike L (Stmt.Alike L) statement statement') :
    Alike L (Stmt.Alike L) (whileStatement n statement) (whileStatement n statement') :=
  (alike_expect _ _).bind fun _ => (alike_expression n).bind fun he => (alike_expect _ _).bind fun _ =>
    hs.bind fun hb => alike_pure (.while he hb)

theorem alike_forInitializer (n : Nat) :
    Alike L (Option.Rel (Stmt.Alike L)) (forInitializer n) (forInitializer n) :=
  (alike_accept _).bind fun hb => .choose hb (alike_pure .none) <| (alike_accept _).bind fun hb => .choose hb
    ((alike_varDeclaration n).bind fun hs => alike_pure (.some hs))
    ((alike_expressionStatement n).bind fun hs => alike_pure (.some hs))

theorem alike_forStatement (n : Nat) (hs : Alike L (Stmt.Alike L) statement statement') :
    Alike L (Stmt.Alike L) (forStatement n statement) (forStatement n statement') := by
  rw [forStatement_eq, forStatement_eq]
  exact (alike_expect _ _).bind fun _ => (alike_forInitializer n).bind fun hi => alike_optionalUpTo _ _ _ fun ht =>
    alike_optionalUpTo _ _ _ fun hp => hs.bind fun hb => alike_pure (.ofFor hi ht hp hb)

theorem alike_block (hb : Alike L (Stmt.AllAlike L) body body') :
    Alike L (Stmt.AllAlike L) (block body) (block body') :=
  hb.bind fun hs => (alike_expect _ _).bind fun _ => alike_pure hs

theorem alike_statementWith (n : Nat) (hs : Alike L (Stmt.Alike L) statement statement')
    (hb : Alike L (Stmt.AllAlike L) body body') :
    Alike L (Stmt.Alike L) (statementWith n statement body) (statementWith n statement' body') := by
  refine (alike_take? _).bind fun ht => ?_
  cases ht with
  | none => exact alike_expressionStatement n
  | some ht =>
    dsimp only
    rw [L.kind ht]
    split
    · exact alike_forStatement n hs
    · exact alike_ifStatement n hs
    · exact alike_printStatement n
    · exact alike_returnStatement n ht
    · exact alike_whileStatement n hs
    · exact (alike_block hb).bind fun hs => alike_pure (.block hs)

theorem alike_functionDeclaration (n : Nat) (hb : Alike L (Stmt.AllAlike L) body body') :
    Alike L (Stmt.Alike L) (functionDeclaration n body) (functionDeclaration n body') :=
  (alike_expect _ _).bind fun ht => (alike_expect _ _).bind fun _ => ((alike_expect _ _).listed _ n).bind fun hp =>
    (alike_expect _ _).bind fun _ => (alike_expect _ _).bind fun _ => (alike_block hb).bind fun hs =>
      alike_pure (.function ht hp hs)

theorem alike_declaration (n : Nat) (hs : Alike L (Stmt.Alike L) statement statement')
    (hb : Alike L (Stmt.AllAlike L) body body') :
    Alike L (Option.Rel (Stmt.Alike L)) (declaration n statement body) (declaration n statement' body') :=
  .recovering <| (alike_accept _).bind fun hf => .choose hf (alike_functionDeclaration n hb) <|
    (alike_accept _).bind fun hv => .choose hv (alike_varDeclaration n) hs

theorem alike_declarations (close : Kind) {one one' : Parse (Option Stmt)}
    (h : Alike L (Option.Rel (Stmt.Alike L)) one one') :
    ∀ n, Alike L (Stmt.AllAlike L) (declarations close one n) (declarations close one' n)
  | 0 => alike_pure .nil
  | n + 1 => (alike_sees _).bind fun hb => .choose hb (alike_pure .nil) <| alike_atEnd.bind fun hb =>
      .choose hb (alike_pure .nil) <| h.bind fun ho => (alike_declarations close h n).bind fun hs => alike_pure (by
        cases ho with
        | none => exact hs
        | some hs' => exact .cons hs' hs)

end

theorem alike_statement_and_body : ∀ n, Alike L (Stmt.Alike L) (statement n) (statement n) ∧
    Alike L (Stmt.AllAlike L) (body n) (body n)
  | 0 => ⟨alike_expressionStatement 0, alike_pure .nil⟩
  | n + 1 => by
    obtain ⟨hs, hb⟩ := alike_statement_and_body n
    have hw := alike_statementWith (n + 1) hs hb
    exact ⟨hw, alike_declarations _ (alike_declaration (n + 1) hw hb) (n + 1)⟩

theorem alike_program (n : Nat) : Alike L (Stmt.AllAlike L) (program n) (program n) := by
  obtain ⟨hs, hb⟩ := alike_statement_and_body n
  exact alike_declarations _ (alike_declaration n hs hb) n

end Parse

/-- **Tokens that stand for each other are read alike.** -/
theorem parse_alike {fresh fresh' : Nat} {tokens tokens' : List Token}
    (h : (startOf fresh tokens).Alike L (startOf fresh' tokens')) :
    Stmt.AllAlike L (parse fresh tokens).statements (parse fresh' tokens').statements ∧
      List.Forall₂ (Fault.Alike L) (parse fresh tokens).faults (parse fresh' tokens').faults ∧
      ∀ i, L.number ((parse fresh tokens).fresh + i) ((parse fresh' tokens').fresh + i) := by
  rw [parse_eq, parse_eq]
  have hlen : (parsedTokens tokens).length = (parsedTokens tokens').length := h.rest.length_eq
  rw [hlen]
  have hp := Parse.alike_program (L := L) (parsedTokens tokens').length h
  rcases hr : Parse.program (parsedTokens tokens').length (startOf fresh tokens) with ⟨o, c⟩
  rcases hr' : Parse.program (parsedTokens tokens').length (startOf fresh' tokens') with ⟨o', c'⟩
  rw [hr, hr'] at hp
  obtain ⟨ho, hc⟩ := hp
  refine ⟨?_, hc.faults, hc.fresh⟩
  cases ho with
  | none => exact .nil
  | some hs => exact hs

end Scriptlet
