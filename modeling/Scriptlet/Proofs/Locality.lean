import Mathlib
import Scriptlet.Proofs.Statements

/-!
# Rules in front of a semicolon

A rule looks at the next token only, and of the rules of a simple statement only the last step passes a semicolon.  So
what they do in front of one depends neither on the tokens behind it nor on what was noted before, nor on the bounds
they are given, as long as these reach the semicolon (`Local`).  A simple statement that is given up is therefore given
up at the same token and with the same faults wherever it stands (`breaks_simple`).
-/
namespace Scriptlet

open Grammar (Word)

/-- What stands around a statement: the tokens behind its semicolon, the end, and what was noted before it. -/
structure Setting where
  behind : List Token
  stop : Token
  noted : List Fault

namespace Setting

variable (s : Setting) (w : Word .semicolon) (x : List Token) (k : Nat) (fs : List Fault)

/-- The cursor in front of the tokens `x` and the semicolon, with so much noted since the statement began. -/
def cursor : Cursor where
  rest := x ++ w.1 :: s.behind
  stop := s.stop
  fresh := k
  faults := s.noted ++ fs

theorem peek_cursor : (s.cursor w x k fs).peek = x.headD w.1 := by
  cases x <;> rfl

theorem note_cursor (t : Token) (cause : Cause) :
    (s.cursor w x k fs).note t cause = s.cursor w x k (fs ++ [.parse t.site cause]) := by
  unfold Cursor.note cursor
  rw [List.append_assoc]

end Setting

namespace Parse

variable {α β : Type} {w : Word .semicolon} {b : Nat}

/-- Two rules end in the same way, with the same of the tokens `x` left. -/
def SameEnd (w : Word .semicolon) (s s' : Setting) (x : List Token) (e e' : Option α × Cursor) : Prop :=
  ∃ o y k fs, y <:+ x ∧ e = (o, s.cursor w y k fs) ∧ e' = (o, s'.cursor w y k fs)

/-- In front of a semicolon that comes after at most `b` tokens, the rules do the same in any setting. -/
def Local (w : Word .semicolon) (b : Nat) (p p' : Parse α) : Prop := ∀ (s s' : Setting) (x : List Token) (k : Nat)
  (fs : List Fault), x.length ≤ b → SameEnd w s s' x (p (s.cursor w x k fs)) (p' (s'.cursor w x k fs))

/-- The same where the first rule gives up. -/
def Breaks (w : Word .semicolon) (b : Nat) (p p' : Parse α) : Prop := ∀ (s s' : Setting) (x : List Token) (k : Nat)
  (fs : List Fault), x.length ≤ b → (p (s.cursor w x k fs)).1 = none →
    SameEnd w s s' x (p (s.cursor w x k fs)) (p' (s'.cursor w x k fs))

/-! ## Parts -/

section

variable {p p' : Parse α} {f f' : α → Parse β}

theorem local_pure (a : α) : Local w b (pure a) (pure a) :=
  fun _ _ x k fs _ => ⟨some a, x, k, fs, x.suffix_rfl, rfl, rfl⟩

theorem Local.mono (h : Local w b p p') {j : Nat} (hj : j ≤ b) : Local w j p p' :=
  fun s s' x k fs hx => h s s' x k fs (hx.trans hj)

theorem Local.symm (h : Local w b p p') : Local w b p' p := by
  intro s s' x k fs hx
  obtain ⟨o, y, k₁, fs₁, hy, e, e'⟩ := h s' s x k fs hx
  exact ⟨o, y, k₁, fs₁, hy, e', e⟩

theorem Local.bind (h : Local w b p p') (hf : ∀ a, Local w b (f a) (f' a)) : Local w b (p >>= f) (p' >>= f') := by
  intro s s' x k fs hx
  obtain ⟨o, y, k₁, fs₁, hy, e, e'⟩ := h s s' x k fs hx
  rw [bind_def, bind_def, e, e']
  cases o with
  | none => exact ⟨none, y, k₁, fs₁, hy, rfl, rfl⟩
  | some a =>
    obtain ⟨o, z, k₂, fs₂, hz, e, e'⟩ := hf a s s' y k₁ fs₁ (hy.length_le.trans hx)
    exact ⟨o, z, k₂, fs₂, hz.trans hy, e, e'⟩

theorem Local.bind_breaks (h : Local w b p p') (hf : ∀ a, Breaks w b (f a) (f' a)) :
    Breaks w b (p >>= f) (p' >>= f') := by
  intro s s' x k fs hx hnone
  obtain ⟨o, y, k₁, fs₁, hy, e, e'⟩ := h s s' x k fs hx
  rw [bind_def, e] at hnone
  rw [bind_def, bind_def, e, e']
  cases o with
  | none => exact ⟨none, y, k₁, fs₁, hy, rfl, rfl⟩
  | some a =>
    obtain ⟨o, z, k₂, fs₂, hz, e, e'⟩ := hf a s s' y k₁ fs₁ (hy.length_le.trans hx) hnone
    exact ⟨o, z, k₂, fs₂, hz.trans hy, e, e'⟩

theorem Local.map (g : α → β) (h : Local w b p p') : Local w b (g <$> p) (g <$> p') := h.bind fun _ => local_pure _

theorem Local.choose {q q' : Parse α} {c : Prop} [Decidable c] (h : Local w b p p') (hq : Local w b q q') :
    Local w b (if c then p else q) (if c then p' else q') := by
  split
  · exact h
  · exact hq

end

theorem local_note (t : Token) (cause : Cause) : Local w b (note t cause) (note t cause) := by
  intro s s' x k fs _
  unfold note
  rw [s.note_cursor, s'.note_cursor]
  exact ⟨_, x, k, _, x.suffix_rfl, rfl, rfl⟩

theorem local_peek : Local w b peek peek := by
  intro s s' x k fs _
  unfold peek
  rw [s.peek_cursor, s'.peek_cursor]
  exact ⟨_, x, k, fs, x.suffix_rfl, rfl, rfl⟩

theorem local_fail (what : String) : Local w b (fail what : Parse α) (fail what) := by
  intro s s' x k fs _
  unfold fail
  rw [s.peek_cursor, s'.peek_cursor, s.note_cursor, s'.note_cursor]
  exact ⟨_, x, k, _, x.suffix_rfl, rfl, rfl⟩

theorem local_fresh : Local w b fresh fresh := fun _ _ x k fs _ => ⟨some k, x, k + 1, fs, x.suffix_rfl, rfl, rfl⟩

theorem local_sees (kind : Kind) : Local w b (sees kind) (sees kind) := by
  intro s s' x k fs _
  refine ⟨some (decide ((x.headD w.1).kind = kind)), x, k, fs, x.suffix_rfl, ?_, ?_⟩ <;> cases x <;> rfl

/-! A token that is taken leaves one less in front of the semicolon. -/

theorem take?_cons {q : Kind → Bool} {c : Cursor} {t : Token} {ts : List Token} (h : c.rest = t :: ts) :
    take? q c = if q t.kind = true then (some (some t), { c with rest := ts }) else (some none, c) := by
  unfold take?
  rw [h]

theorem take?_bind_of_kind {q : Kind → Bool} {f : Option Token → Parse β} {c : Cursor} {t : Token} {ts : List Token}
    (h : c.rest = t :: ts) (hq : q t.kind = true) : (take? q >>= f) c = f (some t) { c with rest := ts } := by
  rw [bind_def, take?_cons h, if_pos hq]

theorem take?_bind_of_not {q : Kind → Bool} {f : Option Token → Parse β} {c : Cursor} {t : Token} {ts : List Token}
    (h : c.rest = t :: ts) (hq : q t.kind = false) : (take? q >>= f) c = f none c := by
  rw [bind_def, take?_cons h, if_neg (by rw [hq]; decide)]

theorem expect_cons {kind : Kind} {what : String} {c : Cursor} {t : Token} {ts : List Token} (h : c.rest = t :: ts) :
    expect kind what c = if t.kind = kind then (some t, { c with rest := ts }) else fail what c := by
  unfold expect
  rw [bind_def, take?_cons h]
  by_cases ht : t.kind = kind <;> simp [ht, pure_def]

section

variable {q : Kind → Bool} {f f' : Option Token → Parse β}

/-- No rule takes the semicolon for something else. -/
theorem take?_semicolon_bind (hq : q .semicolon = false) (f : Option Token → Parse β) (s : Setting) (k : Nat)
    (fs : List Fault) : (take? q >>= f) (s.cursor w [] k fs) = f none (s.cursor w [] k fs) := by
  exact take?_bind_of_not rfl (by rw [w.kind_eq, hq])

theorem local_take?_bind (hq : q .semicolon = false) (hsome : ∀ t, ∀ j < b, Local w j (f (some t)) (f' (some t)))
    (hnone : Local w b (f none) (f' none)) : Local w b (take? q >>= f) (take? q >>= f') := by
  intro s s' x k fs hx
  cases x with
  | nil =>
    rw [take?_semicolon_bind hq, take?_semicolon_bind hq]
    exact hnone s s' [] k fs hx
  | cons t ts =>
    by_cases ht : q t.kind = true
    · -- both take it, and as much as is left then is less than `b`
      rw [take?_bind_of_kind rfl ht, take?_bind_of_kind rfl ht]
      obtain ⟨o, y, k₁, fs₁, hy, e, e'⟩ := hsome t ts.length hx s s' ts k fs le_rfl
      exact ⟨o, y, k₁, fs₁, hy.trans (ts.suffix_cons t), e, e'⟩
    · rw [take?_bind_of_not rfl (Bool.eq_false_iff.2 ht), take?_bind_of_not rfl (Bool.eq_false_iff.2 ht)]
      exact hnone s s' (t :: ts) k fs hx

theorem local_take? (hq : q .semicolon = false) : Local w b (take? q) (take? q) := by
  rw [← bind_pure (take? q)]
  exact local_take?_bind hq (fun t _ _ => local_pure (some t)) (local_pure none)

/-! At the semicolon itself nothing is taken, so one side may have stopped looking. -/

theorem Local.take?_left {p : Parse β} (h : Local w 0 (f none) p) (hq : q .semicolon = false) :
    Local w 0 (take? q >>= f) p := by
  intro s s' x k fs hx
  obtain rfl := List.length_eq_zero_iff.1 (Nat.le_zero.1 hx)
  rw [take?_semicolon_bind hq]
  exact h s s' [] k fs hx

theorem Local.take?_right {p : Parse β} (h : Local w 0 p (f none)) (hq : q .semicolon = false) :
    Local w 0 p (take? q >>= f) := (h.symm.take?_left hq).symm

end

section

variable {kind : Kind} {f f' : Bool → Parse β}

theorem accept_bind (kind : Kind) (f : Bool → Parse β) :
    accept kind >>= f = take? (· = kind) >>= fun o => f o.isSome := by
  unfold accept
  rw [bind_assoc]
  rfl

theorem local_accept_bind (hk : kind ≠ .semicolon) (htrue : ∀ j < b, Local w j (f true) (f' true))
    (hfalse : Local w b (f false) (f' false)) : Local w b (accept kind >>= f) (accept kind >>= f') := by
  rw [accept_bind, accept_bind]
  exact local_take?_bind (decide_eq_false hk.symm) (fun _ => htrue) hfalse

theorem Local.accept_left {p : Parse β} (h : Local w 0 (f false) p) (hk : kind ≠ .semicolon) :
    Local w 0 (accept kind >>= f) p := by
  rw [accept_bind]
  exact Local.take?_left h (decide_eq_false hk.symm)

theorem Local.accept_right {p : Parse β} (h : Local w 0 p (f false)) (hk : kind ≠ .semicolon) :
    Local w 0 p (accept kind >>= f) := (h.symm.accept_left hk).symm

theorem local_accept (hk : kind ≠ .semicolon) : Local w b (accept kind) (accept kind) :=
  (local_take? (decide_eq_false hk.symm)).bind fun _ => local_pure _

theorem local_expect (hk : kind ≠ .semicolon) (what : String) : Local w b (expect kind what) (expect kind what) := by
  refine (local_take? (decide_eq_false hk.symm)).bind fun o => ?_
  cases o with
  | none => exact local_fail what
  | some t => exact local_pure t

end

/-! ## Lists and expressions

Each side has a bound of its own, and both reach the semicolon. -/

theorem local_separated {item item' : Nat → Parse α} : ∀ {b n n' : Nat}, (∀ i, Local w b (item i) (item' i)) → b ≤ n →
    b ≤ n' → ∀ i, Local w b (separated item n i) (separated item' n' i)
  | _, 0, 0, h, _, _, i => (h i).bind fun _ => local_pure _
  | b, 0, _ + 1, h, hn, _, i => by
    obtain rfl := Nat.le_zero.1 hn
    exact (h i).bind fun a => .accept_right (local_pure [a]) (by decide)
  | b, _ + 1, 0, h, _, hn', i => by
    obtain rfl := Nat.le_zero.1 hn'
    exact (h i).bind fun a => .accept_left (local_pure [a]) (by decide)
  | b, _ + 1, _ + 1, h, hn, hn', i => by
    refine (h i).bind fun a => local_accept_bind (by decide) (fun j hj => ?_) (local_pure [a])
    exact (local_separated (fun i => (h i).mono hj.le) (by omega) (by omega) (i + 1)).bind fun _ => local_pure _

theorem local_listed {item item' : Parse α} (h : Local w b item item') (what : String) {n n' : Nat} (hn : b ≤ n)
    (hn' : b ≤ n') : Local w b (listed item what n) (listed item' what n') :=
  (local_sees _).bind fun _ => .choose (local_pure []) <| local_separated (fun _ =>
    .choose (local_peek.bind fun t => (local_note t _).bind fun _ => h) h) hn hn' 0

section

variable {e e' : Parse Expr} {n n' : Nat}

theorem local_primary (h : ∀ j < b, Local w j e e') : Local w b (primary e) (primary e') := by
  rw [primary_eq, primary_eq]
  refine local_take?_bind rfl (fun t j hj => ?_) (local_fail _)
  dsimp only
  unfold primaryFrom
  split
  · exact local_pure _
  · exact .choose (local_fresh.bind fun _ => local_pure _)
      ((h j hj).bind fun _ => (local_expect (by decide) _).bind fun _ => local_pure _)

theorem local_calls : ∀ {b n n' : Nat}, (∀ j < b, Local w j e e') → b ≤ n → b ≤ n' → ∀ callee,
    Local w b (calls e n callee) (calls e' n' callee)
  | _, 0, 0, _, _, _, callee => local_pure callee
  | b, 0, _ + 1, _, hn, _, callee => by
    obtain rfl := Nat.le_zero.1 hn
    exact .accept_right (local_pure callee) (by decide)
  | b, _ + 1, 0, _, _, hn', callee => by
    obtain rfl := Nat.le_zero.1 hn'
    exact .accept_left (local_pure callee) (by decide)
  | b, n + 1, n' + 1, h, hn, hn', callee => by
    refine local_accept_bind (by decide) (fun j hj => ?_) (local_pure callee)
    refine (local_listed (h j hj) _ (by omega) (by omega)).bind fun es => (local_expect (by decide) _).bind fun t => ?_
    exact local_calls (fun i hi => h i (hi.trans hj)) (by omega) (by omega) _

theorem local_unary : ∀ {b n n' : Nat}, Local w b e e' → b ≤ n → b ≤ n' → Local w b (unary e n) (unary e' n')
  | _, 0, 0, h, _, _ => h
  | b, 0, _ + 1, h, hn, _ => by
    obtain rfl := Nat.le_zero.1 hn
    exact Local.take?_right h rfl
  | b, _ + 1, 0, h, _, hn' => by
    obtain rfl := Nat.le_zero.1 hn'
    exact Local.take?_left h rfl
  | b, n + 1, n' + 1, h, hn, hn' => by
    refine local_take?_bind rfl (fun t j hj => ?_) h
    exact (local_unary (h.mono hj.le) (by omega) (by omega)).bind fun _ => local_pure _

theorem has_semicolon (level : Level) : level.has .semicolon = false := by
  cases level <;> rfl

theorem local_joined (level : Level) : ∀ {b n n' : Nat}, Local w b e e' → b ≤ n → b ≤ n' → ∀ left,
    Local w b (joined level e n left) (joined level e' n' left)
  | _, 0, 0, _, _, _, left => local_pure left
  | b, 0, _ + 1, _, hn, _, left => by
    obtain rfl := Nat.le_zero.1 hn
    exact Local.take?_right (local_pure left) (has_semicolon level)
  | b, _ + 1, 0, _, _, hn', left => by
    obtain rfl := Nat.le_zero.1 hn'
    exact Local.take?_left (local_pure left) (has_semicolon level)
  | b, n + 1, n' + 1, h, hn, hn', left => by
    refine local_take?_bind (has_semicolon level) (fun t j hj => ?_) (local_pure left)
    have h := h.mono hj.le
    exact h.bind fun _ => local_joined level h (by omega) (by omega) _

theorem local_chain (level : Level) (h : Local w b e e') (hn : b ≤ n) (hn' : b ≤ n') :
    Local w b (chain level n e) (chain level n' e') := h.bind fun left => local_joined level h hn hn' left

theorem local_assignTo (target : Expr) (equals : Token) (value : Expr) :
    Local w b (assignTo target equals value) (assignTo target equals value) := by
  cases target
  all_goals first
    | exact local_fresh.bind fun _ => local_pure _
    | exact (local_note _ _).bind fun _ => local_pure _

theorem local_assignment (h : ∀ j < b, Local w j e e') (hn : b ≤ n) (hn' : b ≤ n') :
    Local w b (assignment n e) (assignment n' e') := by
  have hcall : Local w b (primary e >>= calls e n) (primary e' >>= calls e' n') :=
    (local_primary h).bind fun callee => local_calls h hn hn' callee
  have hop : Local w b (operation n e) (operation n' e') :=
    local_chain _ (local_chain _ (local_chain _ (local_chain _ (local_chain _ (local_chain _
      (local_unary hcall hn hn') hn hn') hn hn') hn hn') hn hn') hn hn') hn hn'
  rw [assignment_eq, assignment_eq]
  exact hop.bind fun target => local_take?_bind rfl
    (fun t j hj => (h j hj).bind fun value => local_assignTo target t value) (local_pure target)

end

/-- At the semicolon there is no expression, whatever the bound. -/
theorem expression_semicolon (s : Setting) (k : Nat) (fs : List Fault) :
    ∀ n, expression n (s.cursor w [] k fs) = fail "expression" (s.cursor w [] k fs)
  | 0 => rfl
  | n + 1 => by
    have hbind {f : Expr → Parse Expr} {p : Parse Expr}
        (h : p (s.cursor w [] k fs) = fail "expression" (s.cursor w [] k fs)) :
        (p >>= f) (s.cursor w [] k fs) = fail "expression" (s.cursor w [] k fs) := by
      rw [bind_def, h]
      rfl
    have hprimary : primary (expression n) (s.cursor w [] k fs) = fail "expression" (s.cursor w [] k fs) := by
      rw [primary_eq, take?_semicolon_bind rfl]
    have hunary : unary (primary (expression n) >>= calls (expression n) (n + 1)) (n + 1) (s.cursor w [] k fs) =
        fail "expression" (s.cursor w [] k fs) := by
      rw [unary, take?_semicolon_bind rfl]
      exact hbind hprimary
    exact hbind (hbind (hbind (hbind (hbind (hbind (hbind hunary))))))

theorem local_expression : ∀ {b n n' : Nat}, b ≤ n → b ≤ n' → Local w b (expression n) (expression n')
  | 0, n, n', _, _ => by
    -- one of the bounds may be used up here, so the rules are compared at the semicolon itself
    intro s s' x k fs hx
    obtain rfl := List.length_eq_zero_iff.1 (Nat.le_zero.1 hx)
    rw [expression_semicolon, expression_semicolon]
    exact local_fail _ s s' [] k fs hx
  | b + 1, n + 1, n' + 1, hn, hn' =>
    local_assignment (fun j hj => local_expression (by omega) (by omega)) hn hn'

/-! ## Simple statements -/

section

variable {n n' : Nat}

/-- A semicolon ends the statement, so only a token before the last one makes this step fail. -/
theorem breaks_expect (what : String) (a : α) :
    Breaks w b (expect .semicolon what >>= fun _ => pure a) (expect .semicolon what >>= fun _ => pure a) := by
  intro s s' x k fs hx hnone
  have h {s : Setting} {t : Token} {ts : List Token} (hr : (s.cursor w x k fs).rest = t :: ts) :
      (expect .semicolon what >>= fun _ => pure a) (s.cursor w x k fs) =
        if t.kind = .semicolon then (some a, { s.cursor w x k fs with rest := ts })
        else fail what (s.cursor w x k fs) := by
    rw [bind_def, expect_cons hr]
    by_cases ht : t.kind = .semicolon
    · rw [if_pos ht, if_pos ht]
      rfl
    · rw [if_neg ht, if_neg ht]
      rfl
  cases x with
  | nil =>
    rw [h rfl, if_pos w.kind_eq] at hnone
    cases hnone
  | cons t ts =>
    by_cases ht : t.kind = .semicolon
    · rw [h rfl, if_pos ht] at hnone
      cases hnone
    · rw [h rfl, h rfl, if_neg ht, if_neg ht]
      exact local_fail what s s' (t :: ts) k fs hx

theorem breaks_ended (hn : b ≤ n) (hn' : b ≤ n') (what : String) (g : Expr → α) :
    Breaks w b (ended n what >>= fun e => pure (g e)) (ended n' what >>= fun e => pure (g e)) := by
  have h (n : Nat) : (ended n what >>= fun e => pure (g e)) =
      expression n >>= fun e => expect .semicolon what >>= fun _ => pure (g e) := by
    simp only [ended, bind_assoc, pure_bind]
  rw [h, h]
  exact (local_expression hn hn').bind_breaks fun e => breaks_expect what (g e)

theorem Breaks.choose {p p' q q' : Parse α} {c : Prop} [Decidable c] (h : Breaks w b p p') (hq : Breaks w b q q') :
    Breaks w b (if c then p else q) (if c then p' else q') := by
  split
  · exact h
  · exact hq

theorem breaks_returnStatement (hn : b ≤ n) (hn' : b ≤ n') (keyword : Token) :
    Breaks w b (returnStatement n keyword) (returnStatement n' keyword) :=
  (local_sees _).bind_breaks fun _ => .choose ((local_pure none).bind_breaks fun _ => breaks_expect _ _)
    (((local_expression hn hn').map some).bind_breaks fun _ => breaks_expect _ _)

theorem breaks_varDeclaration (hn : b ≤ n) (hn' : b ≤ n') : Breaks w b (varDeclaration n) (varDeclaration n') :=
  (local_expect (by decide) _).bind_breaks fun _ => (local_accept (by decide)).bind_breaks fun _ =>
    .choose (((local_expression hn hn').map some).bind_breaks fun _ => breaks_expect _ _)
      ((local_pure none).bind_breaks fun _ => breaks_expect _ _)

end

/-- The words that a simple statement can begin with. -/
def leadsSimple (k : Kind) : Bool := k = .varWord || k = .printWord || k = .returnWord

/-- The rule for a simple statement behind such a word. -/
def simpleFrom (n : Nat) (word : Token) : Kind → Parse Stmt
  | .varWord => varDeclaration n
  | .printWord => printStatement n
  | _ => returnStatement n word

/-- A statement that ends with the first semicolon: a variable, a `print`, a `return` or an expression. -/
def simple (n : Nat) : Parse Stmt := take? leadsSimple >>= fun o =>
  match o with
  | none => expressionStatement n
  | some t => simpleFrom n t t.kind

/-- **A simple statement that is given up is given up in the same way wherever it stands.** -/
theorem breaks_simple {n n' : Nat} (hn : b ≤ n) (hn' : b ≤ n') : Breaks w b (simple n) (simple n') := by
  refine (local_take? rfl).bind_breaks fun o => ?_
  cases o with
  | none => exact breaks_ended hn hn' _ _
  | some t =>
    dsimp only
    unfold simpleFrom
    split
    · exact breaks_varDeclaration hn hn'
    · exact breaks_ended hn hn' _ _
    · exact breaks_returnStatement hn hn' t

/-- The words that begin a statement with statements inside. -/
def opensCompound : Kind → Bool
  | .funWord | .forWord | .ifWord | .whileWord | .leftBrace => true
  | _ => false

/-- A declaration that begins with neither `fun` nor `var` is a statement. -/
theorem declared_eq_statement {n : Nat} {statement : Parse Stmt} {body : Parse (List Stmt)} {c : Cursor} {t : Token}
    {ts : List Token} (hr : c.rest = t :: ts) (hfun : t.kind ≠ .funWord) (hvar : t.kind ≠ .varWord) :
    declared n statement body c = statement c := by
  rw [declared, accept_bind, take?_bind_of_not hr (decide_eq_false hfun)]
  dsimp only [Option.isSome_none]
  rw [if_neg (by decide), accept_bind, take?_bind_of_not hr (decide_eq_false hvar)]
  rfl

/-- A declaration that does not begin like one with statements inside is simple. -/
theorem declared_eq_simple {n : Nat} {body : Parse (List Stmt)} {c : Cursor} {t : Token} {ts : List Token}
    (hr : c.rest = t :: ts) (ht : opensCompound t.kind = false) :
    declared (n + 1) (statement (n + 1)) body c = simple (n + 1) c := by
  have hfun : t.kind ≠ .funWord := fun h => by rw [h] at ht; cases ht
  have hstatement : statement (n + 1) c = statementWith (n + 1) (statement n) (Parse.body n) c := rfl
  unfold simple
  by_cases hvar : t.kind = .varWord
  · have hfrom : simpleFrom (n + 1) t t.kind = varDeclaration (n + 1) := by rw [hvar]; rfl
    rw [declared, accept_bind, take?_bind_of_not hr (decide_eq_false hfun), take?_bind_of_kind hr (by rw [hvar]; rfl)]
    dsimp only [Option.isSome_none]
    rw [if_neg (by decide), accept_bind, take?_bind_of_kind hr (decide_eq_true hvar)]
    exact congrFun hfrom.symm _
  rw [declared_eq_statement hr hfun hvar, hstatement, statementWith_eq]
  by_cases hword : t.kind = .printWord ∨ t.kind = .returnWord
  · have hfrom : statementFrom (n + 1) (statement n) (Parse.body n) t t.kind = simpleFrom (n + 1) t t.kind := by
      rcases hword with h | h <;> rw [h] <;> rfl
    have hkind : beginsForm t.kind = true ∧ leadsSimple t.kind = true := by
      rcases hword with h | h <;> rw [h] <;> decide
    rw [take?_bind_of_kind hr hkind.1, take?_bind_of_kind hr hkind.2]
    exact congrFun hfrom _
  · have hkind : beginsForm t.kind = false ∧ leadsSimple t.kind = false := by
      cases hk : t.kind <;> simp_all [opensCompound, beginsForm, leadsSimple]
    rw [take?_bind_of_not hr hkind.1, take?_bind_of_not hr hkind.2]

end Parse
end Scriptlet
