import Mathlib
import Scriptlet.Proofs.Expressions

/-!
# Reading statements

The rules for statements and declarations read their part of the grammar (`reads_statement`, `reads_declarations`).  The
rule for `if` takes an `else` whenever it sees one, so the derivation it finds is the one in which every `else` belongs
to the nearest open `if`.
-/
namespace Scriptlet

namespace Grammar

open Parse (Without beginsForm)

/-! ## How a declaration begins -/

/-- The kinds that a statement can begin with. -/
def opensStatement (k : Kind) : Bool := begins k || beginsForm k

/-- The kinds that a declaration can begin with. -/
def opens (k : Kind) : Bool := opensStatement k || k = .funWord || k = .varWord

theorem Word.head {kind : Kind} (w : Word kind) (ts : List Token) {q : Kind → Bool} (h : q kind = true) :
    ∃ t us, w.1 :: ts = t :: us ∧ q t.kind = true := ⟨w.1, ts, rfl, by rw [w.kind_eq, h]⟩

theorem Form.statement_head (d : Form .statement) : ∃ t ts, d.yield = t :: ts ∧ opensStatement t.kind = true := by
  cases d with
  | expression value semicolon =>
    obtain ⟨t, ts, h, hb⟩ := value.exists_head
    exact ⟨t, ts ++ [semicolon.1], by simp [Form.yield, h], by simp [opensStatement, hb]⟩
  | «for» word _ _ => exact word.head _ rfl
  | «if» word _ _ => exact word.head _ rfl
  | ifElse word _ _ _ _ => exact word.head _ rfl
  | print word _ _ => exact word.head _ rfl
  | «return» word _ _ => exact word.head _ rfl
  | «while» word _ _ => exact word.head _ rfl
  | block opening _ _ => exact opening.head _ rfl

theorem Form.declaration_head (d : Form .declaration) : ∃ t ts, d.yield = t :: ts ∧ opens t.kind = true := by
  cases d with
  | function word _ _ _ _ => exact word.head _ rfl
  | var form => exact form.word.head _ rfl
  | statement form =>
    obtain ⟨t, ts, h, ho⟩ := form.statement_head
    exact ⟨t, ts, h, by simp [opens, ho]⟩

theorem Parameters.head (d : Parameters) : ∃ t ts, d.yield = t :: ts ∧ decide (t.kind = .identifier) = true := by
  cases d with
  | last name => exact ⟨_, _, rfl, name.2⟩
  | more name _ _ => exact ⟨_, _, rfl, name.2⟩

theorem Header.yield_append (h : Header) (ts : List Token) : h.yield ++ ts =
    h.name.1 :: h.opening.1 :: (h.params.elim [] Parameters.yield ++ h.closing.1 :: ts) := by
  simp [Header.yield]

/-- A kind that is not of the sort is not the kind of a token of the sort. -/
theorem ne_of_sort {q : Kind → Bool} {kind : Kind} (h : q kind = false) (k : Kind) (hk : q k = true) :
    decide (k = kind) = false := by
  rw [decide_eq_false_iff_not]
  rintro rfl
  rw [h] at hk
  cases hk

end Grammar

namespace Parse

open Grammar

variable {β : Type}

/-! ## Faults are only added -/

theorem grows_ended (n : Nat) (what : String) : Grows (ended n what) :=
  (grows_expression n).bind fun _ => (grows_expect _ _).bind fun _ => grows_pure _

theorem grows_expressionStatement (n : Nat) : Grows (expressionStatement n) :=
  (grows_ended n _).bind fun _ => grows_pure _

theorem grows_printStatement (n : Nat) : Grows (printStatement n) := (grows_ended n _).bind fun _ => grows_pure _

theorem grows_returnStatement (n : Nat) (keyword : Token) : Grows (returnStatement n keyword) := by
  have h : ∀ value, Grows (expect .semicolon "';' after return value" >>= fun _ => pure (Stmt.return keyword value)) :=
    fun _ => (grows_expect _ _).bind fun _ => grows_pure _
  exact (grows_sees _).bind fun _ => .ite _ ((grows_pure _).bind h) (((grows_expression n).map _).bind h)

theorem grows_varDeclaration (n : Nat) : Grows (varDeclaration n) := by
  have h : ∀ name value, Grows (expect .semicolon "';' after variable declaration" >>= fun _ =>
      pure (Stmt.var name value)) := fun _ _ => (grows_expect _ _).bind fun _ => grows_pure _
  exact (grows_expect _ _).bind fun name => (grows_accept _).bind fun _ =>
    .ite _ (((grows_expression n).map _).bind (h name)) ((grows_pure _).bind (h name))

theorem grows_ifStatement (n : Nat) {statement : Parse Stmt} (hs : Grows statement) :
    Grows (ifStatement n statement) :=
  (grows_expect _ _).bind fun _ => (grows_expression n).bind fun _ => (grows_expect _ _).bind fun _ =>
    hs.bind fun _ => (grows_accept _).bind fun _ =>
      .ite _ ((hs.map _).bind fun _ => grows_pure _) ((grows_pure _).bind fun _ => grows_pure _)

theorem grows_whileStatement (n : Nat) {statement : Parse Stmt} (hs : Grows statement) :
    Grows (whileStatement n statement) :=
  (grows_expect _ _).bind fun _ => (grows_expression n).bind fun _ => (grows_expect _ _).bind fun _ =>
    hs.bind fun _ => grows_pure _

theorem grows_forInitializer (n : Nat) : Grows (forInitializer n) :=
  (grows_accept _).bind fun _ => .ite _ (grows_pure _) <| (grows_accept _).bind fun _ =>
    .ite _ ((grows_varDeclaration n).bind fun _ => grows_pure _)
      ((grows_expressionStatement n).bind fun _ => grows_pure _)

/-- An expression that is missing where a token of the kind stands, and the token. -/
def optionalUpTo (n : Nat) (kind : Kind) (what : String) (next : Option Expr → Parse β) : Parse β :=
  sees kind >>= fun b =>
    if b = true then pure none >>= fun value => expect kind what >>= fun _ => next value
    else some <$> expression n >>= fun value => expect kind what >>= fun _ => next value

theorem grows_optionalUpTo (n : Nat) (kind : Kind) (what : String) {next : Option Expr → Parse β}
    (h : ∀ value, Grows (next value)) : Grows (optionalUpTo n kind what next) :=
  (grows_sees _).bind fun _ => .ite _ ((grows_pure _).bind fun v => (grows_expect _ _).bind fun _ => h v)
    (((grows_expression n).map _).bind fun v => (grows_expect _ _).bind fun _ => h v)

theorem returnStatement_eq (n : Nat) (keyword : Token) : returnStatement n keyword =
    optionalUpTo n .semicolon "';' after return value" fun value => pure (.return keyword value) := rfl

theorem forStatement_eq (n : Nat) (statement : Parse Stmt) : forStatement n statement =
    expect .leftParen "'(' after 'for'" >>= fun _ => forInitializer n >>= fun start =>
      optionalUpTo n .semicolon "';' after loop condition" fun test =>
        optionalUpTo n .rightParen "')' after for clauses" fun step =>
          statement >>= fun body => pure (.ofFor start test step body) := rfl

theorem ofFor_eq (start : Option Stmt) (test step : Option Expr) (body : Stmt) :
    Stmt.ofFor start test step body = loopOf start test step body := by
  cases start <;> cases step <;> rfl

theorem grows_forStatement (n : Nat) {statement : Parse Stmt} (hs : Grows statement) :
    Grows (forStatement n statement) := by
  rw [forStatement_eq]
  exact (grows_expect _ _).bind fun _ => (grows_forInitializer n).bind fun _ => grows_optionalUpTo _ _ _ fun _ =>
    grows_optionalUpTo _ _ _ fun _ => hs.bind fun _ => grows_pure _

theorem grows_block {body : Parse (List Stmt)} (hb : Grows body) : Grows (block body) :=
  hb.bind fun _ => (grows_expect _ _).bind fun _ => grows_pure _

theorem grows_functionDeclaration (n : Nat) {body : Parse (List Stmt)} (hb : Grows body) :
    Grows (functionDeclaration n body) :=
  (grows_expect _ _).bind fun _ => (grows_expect _ _).bind fun _ => (grows_listed (grows_expect _ _) _ n).bind fun _ =>
    (grows_expect _ _).bind fun _ => (grows_expect _ _).bind fun _ => (grows_block hb).bind fun _ => grows_pure _

theorem grows_statementWith (n : Nat) {statement : Parse Stmt} {body : Parse (List Stmt)} (hs : Grows statement)
    (hb : Grows body) : Grows (statementWith n statement body) := by
  refine (grows_take? _).bind fun t => ?_
  cases t with
  | none => exact grows_expressionStatement n
  | some t =>
    dsimp only
    split
    · exact grows_forStatement n hs
    · exact grows_ifStatement n hs
    · exact grows_printStatement n
    · exact grows_returnStatement n t
    · exact grows_whileStatement n hs
    · exact (grows_block hb).bind fun _ => grows_pure _

/-- A declaration before any recovery. -/
def declared (n : Nat) (statement : Parse Stmt) (body : Parse (List Stmt)) : Parse Stmt :=
  accept .funWord >>= fun b =>
    if b = true then functionDeclaration n body
    else accept .varWord >>= fun b => if b = true then varDeclaration n else statement

theorem grows_declared (n : Nat) {statement : Parse Stmt} {body : Parse (List Stmt)} (hs : Grows statement)
    (hb : Grows body) : Grows (declared n statement body) :=
  (grows_accept _).bind fun _ => .ite _ (grows_functionDeclaration n hb) <|
    (grows_accept _).bind fun _ => .ite _ (grows_varDeclaration n) hs

theorem grows_declarations (close : Kind) {one : Parse (Option Stmt)} (h : Grows one) :
    ∀ n, Grows (declarations close one n)
  | 0 => grows_pure _
  | n + 1 => (grows_sees _).bind fun _ => .ite _ (grows_pure _) <| grows_atEnd.bind fun _ => .ite _ (grows_pure _) <|
      h.bind fun _ => (grows_declarations close h n).bind fun _ => grows_pure _

theorem grows_statement_and_body : ∀ n, Grows (statement n) ∧ Grows (body n)
  | 0 => ⟨grows_expressionStatement 0, grows_pure _⟩
  | n + 1 => by
    obtain ⟨hs, hb⟩ := grows_statement_and_body n
    have hw := grows_statementWith (n + 1) hs hb
    exact ⟨hw, grows_declarations _ (grows_recovering (grows_declared (n + 1) hw hb)) (n + 1)⟩

/-! ## The parts of a statement -/

/-- An expression up to a token that cannot belong to it. -/
theorem clean_expression_expect {n : Nat} {kind : Kind} {what : String} {f : Expr → Token → Parse β}
    (hk : Symbol.assignment.goesOn kind = false) (hf : ∀ e t, Grows (f e t)) {c c' : Cursor} {b : β}
    (hn : c.rest.length ≤ n) :
    Clean (expression n >>= fun e => expect kind what >>= f e) c b c' ↔
      ∃ (d : Phrase .assignment) (w : Word kind) (ts : List Token), c.rest = d.yield ++ w.1 :: ts ∧ d.Limited ∧
        Clean (f (d.build c.fresh).1 w.1) (c.moved ts (d.build c.fresh).2) b c' := by
  rw [(reads_expression n).bind_iff (grows_expression n) (fun e => (grows_expect _ _).bind (hf e)) hn]
  constructor
  · rintro ⟨d, r, hr, hfit, h⟩
    obtain ⟨w, ts, hw, h⟩ := clean_expect_bind.1 h
    have hw : r = w.1 :: ts := hw
    exact ⟨d, w, ts, hw ▸ hr, hfit.1, h⟩
  · rintro ⟨d, w, ts, hr, hl, h⟩
    refine ⟨d, w.1 :: ts, hr, ⟨hl, without_cons.2 (by rw [w.kind_eq, hk])⟩, ?_⟩
    exact clean_expect_bind.2 ⟨w, ts, rfl, h⟩

theorem clean_optionalUpTo {n : Nat} {kind : Kind} {what : String} {next : Option Expr → Parse β}
    (hb : begins kind = false) (hk : Symbol.assignment.goesOn kind = false) (hf : ∀ v, Grows (next v))
    {c c' : Cursor} {b : β} (hn : c.rest.length ≤ n) :
    Clean (optionalUpTo n kind what next) c b c' ↔
      ∃ (d : Optional) (w : Word kind) (ts : List Token), c.rest = d.yield ++ w.1 :: ts ∧ d.Limited ∧
        Clean (next (d.build c.fresh).1) (c.moved ts (d.build c.fresh).2) b c' := by
  rw [optionalUpTo, clean_sees_bind, map_def, bind_assoc]
  cases hsees : c.sees kind with
  | true =>
    simp only [if_true, pure_bind, clean_expect_bind]
    constructor
    · rintro ⟨w, ts, hw, h⟩
      exact ⟨none, w, ts, hw, trivial, h⟩
    · rintro ⟨d, w, ts, hr, hl, h⟩
      cases d with
      | none => exact ⟨w, ts, hr, h⟩
      | some d =>
        have hw : Without (· = kind) c.rest := hr ▸ without_of_head d.exists_head (ne_of_sort hb) _
        rw [without_iff_not_sees, hsees] at hw
        cases hw
  | false =>
    simp only [Bool.false_eq_true, if_false, pure_bind]
    rw [clean_expression_expect hk (fun e _ => hf (some e)) hn]
    constructor
    · rintro ⟨d, w, ts, hr, hl, h⟩
      exact ⟨some d, w, ts, hr, hl, h⟩
    · rintro ⟨d, w, ts, hr, hl, h⟩
      cases d with
      | none =>
        have hr : c.rest = w.1 :: ts := hr
        have : c.sees kind = true := by simp [Cursor.sees, hr, w.kind_eq]
        rw [hsees] at this
        cases this
      | some d => exact ⟨d, w, ts, hr, hl, h⟩

theorem clean_ended {n : Nat} {what : String} {c c' : Cursor} {e : Expr} (hn : c.rest.length ≤ n) :
    Clean (ended n what) c e c' ↔
      ∃ (d : Phrase .assignment) (w : Word .semicolon) (ts : List Token), c.rest = d.yield ++ w.1 :: ts ∧ d.Limited ∧
        e = (d.build c.fresh).1 ∧ c' = c.moved ts (d.build c.fresh).2 := by
  rw [ended, clean_expression_expect rfl (fun _ _ => grows_pure _) hn]
  simp only [clean_pure]

theorem clean_varDeclaration {n : Nat} {c c' : Cursor} {s : Stmt} (hn : c.rest.length ≤ n) :
    Clean (varDeclaration n) c s c' ↔
      ∃ (name : Word .identifier) (i : Initializer) (w : Word .semicolon) (ts : List Token),
        c.rest = name.1 :: (i.yield ++ w.1 :: ts) ∧ i.value?.Limited ∧
          s = .var name.1 (i.value?.build c.fresh).1 ∧ c' = c.moved ts (i.value?.build c.fresh).2 := by
  have hf : ∀ (name : Token) (v : Option Expr) (_ : Token), Grows (pure (Stmt.var name v) : Parse Stmt) :=
    fun _ _ _ => grows_pure _
  rw [varDeclaration, clean_expect_bind]
  constructor
  · rintro ⟨name, ts, hr, h⟩
    rcases clean_accept_bind.1 h with ⟨t, us, ht, h⟩ | ⟨-, h⟩
    · have ht : ts = t.1 :: us := ht
      have hlen : us.length ≤ n := by simp [hr, ht] at hn; omega
      simp only [if_true, map_def, bind_assoc, pure_bind] at h
      obtain ⟨d, w, vs, hd, hl, h⟩ := (clean_expression_expect rfl (fun e => hf name.1 (some e)) hlen).1 h
      have hd : us = d.yield ++ w.1 :: vs := hd
      obtain ⟨rfl, rfl⟩ := clean_pure.1 h
      refine ⟨name, .some t d, w, vs, ?_, hl, rfl, rfl⟩
      rw [hr, ht, hd]
      rfl
    · simp only [Bool.false_eq_true, if_false, pure_bind, clean_expect_bind, clean_pure] at h
      obtain ⟨w, us, hw, rfl, rfl⟩ := h
      have hw : ts = w.1 :: us := hw
      exact ⟨name, .none, w, us, by rw [hr, hw]; rfl, trivial, rfl, rfl⟩
  · rintro ⟨name, i, w, ts, hr, hl, rfl, rfl⟩
    refine ⟨name, _, hr, ?_⟩
    cases i with
    | none =>
      refine clean_accept_bind.2 (.inr ⟨without_cons.2 (by rw [w.kind_eq]; rfl), ?_⟩)
      simp only [Bool.false_eq_true, if_false, pure_bind]
      exact clean_expect_bind.2 ⟨w, ts, rfl, clean_pure.2 ⟨rfl, rfl⟩⟩
    | some equal value =>
      have hlen : (value.yield ++ w.1 :: ts).length ≤ n := by
        simp [hr, Initializer.yield] at hn
        simp
        omega
      refine clean_accept_bind.2 (.inl ⟨equal, _, rfl, ?_⟩)
      simp only [if_true, map_def, bind_assoc, pure_bind]
      refine (clean_expression_expect rfl (fun e => hf name.1 (some e)) hlen).2 ?_
      exact ⟨value, w, ts, rfl, hl, clean_pure.2 ⟨rfl, rfl⟩⟩

/-- A condition in its parentheses, and what is read behind it. -/
theorem clean_condition {n : Nat} {before behind : String} {f : Expr → Parse β} (hf : ∀ e, Grows (f e))
    {c c' : Cursor} {b : β} (hn : c.rest.length ≤ n) :
    Clean (expect .leftParen before >>= fun _ => expression n >>= fun e => expect .rightParen behind >>= fun _ => f e)
        c b c' ↔
      ∃ (d : Condition) (ts : List Token), c.rest = d.yield ++ ts ∧ d.test.Limited ∧
        Clean (f (d.test.build c.fresh).1) (c.moved ts (d.test.build c.fresh).2) b c' := by
  rw [clean_expect_bind]
  constructor
  · rintro ⟨t, ts, ht, h⟩
    have hlen : ts.length ≤ n := by simp [ht] at hn; omega
    obtain ⟨d, w, us, hd, hl, h⟩ := (clean_expression_expect rfl (fun e _ => hf e) hlen).1 h
    have hd : ts = d.yield ++ w.1 :: us := hd
    exact ⟨⟨t, d, w⟩, us, by rw [ht, hd]; simp [Condition.yield], hl, h⟩
  · rintro ⟨d, ts, hd, hl, h⟩
    have hd : c.rest = d.opening.1 :: (d.test.yield ++ d.closing.1 :: ts) := by
      rw [hd]
      simp [Condition.yield]
    have hlen : (d.test.yield ++ d.closing.1 :: ts).length ≤ n := by simp [hd] at hn; simp; omega
    refine ⟨d.opening, _, hd, ?_⟩
    exact (clean_expression_expect rfl (fun e _ => hf e) hlen).2 ⟨d.test, d.closing, ts, rfl, hl, h⟩

theorem begins_without_semicolon (d : Phrase .assignment) (ts : List Token) :
    Without (· = .semicolon) (d.yield ++ ts) := without_of_head d.exists_head (ne_of_sort rfl) ts

theorem clean_forInitializer {n : Nat} {c c' : Cursor} {o : Option Stmt} (hn : c.rest.length ≤ n) :
    Clean (forInitializer n) c o c' ↔
      ∃ (d : ForStart) (ts : List Token), c.rest = d.yield ++ ts ∧ d.Limited ∧ o = (d.build c.fresh).1 ∧
        c' = c.moved ts (d.build c.fresh).2 := by
  rw [forInitializer, clean_accept_bind]
  simp only [if_true, Bool.false_eq_true, if_false, clean_accept_bind,
    clean_bind (grows_varDeclaration n) fun _ => grows_pure _, expressionStatement, bind_assoc, pure_bind,
    clean_bind (grows_ended n _) fun _ => grows_pure _, clean_pure]
  constructor
  · rintro (⟨t, ts, ht, rfl, rfl⟩ | ⟨-, ⟨t, ts, ht, s, c₁, h, rfl, rfl⟩ | ⟨-, e, c₁, h, rfl, rfl⟩⟩)
    · exact ⟨.none t, ts, ht, trivial, rfl, rfl⟩
    · have hlen : ts.length ≤ n := by simp [ht] at hn; omega
      obtain ⟨name, i, w, us, hr, hl, rfl, rfl⟩ := (clean_varDeclaration hlen).1 h
      have hr : ts = name.1 :: (i.yield ++ w.1 :: us) := hr
      refine ⟨.var ⟨t, name, i, w⟩, us, ?_, hl, rfl, rfl⟩
      rw [ht, hr]
      simp [ForStart.yield, VarForm.yield]
    · obtain ⟨d, w, ts, hr, hl, rfl, rfl⟩ := (clean_ended hn).1 h
      exact ⟨.expression d w, ts, by rw [hr]; simp [ForStart.yield], hl, rfl, rfl⟩
  · rintro ⟨d, ts, hd, hl, rfl, rfl⟩
    cases d with
    | none semicolon => exact .inl ⟨semicolon, ts, hd, rfl, rfl⟩
    | var form =>
      have hd : c.rest = form.word.1 :: form.name.1 :: (form.initializer.yield ++ form.semicolon.1 :: ts) := by
        rw [hd]
        simp [ForStart.yield, VarForm.yield]
      have hlen : (form.name.1 :: (form.initializer.yield ++ form.semicolon.1 :: ts)).length ≤ n := by
        simp [hd] at hn
        simp
        omega
      refine .inr ⟨by rw [hd, without_cons, form.word.kind_eq]; rfl, .inl ⟨form.word, _, hd, _, _, ?_, rfl, rfl⟩⟩
      exact (clean_varDeclaration hlen).2 ⟨form.name, form.initializer, form.semicolon, ts, rfl, hl, rfl, rfl⟩
    | expression value semicolon =>
      have hd : c.rest = value.yield ++ semicolon.1 :: ts := by
        rw [hd]
        simp [ForStart.yield]
      refine .inr ⟨hd ▸ begins_without_semicolon value _, .inr ⟨?_, _, _, ?_, rfl, rfl⟩⟩
      · exact hd ▸ without_of_head value.exists_head (ne_of_sort rfl) _
      · exact (clean_ended hn).2 ⟨value, semicolon, ts, hd, hl, rfl, rfl⟩

/-! ## Statements -/

/-- The statements or declarations.  An open one is found only where no `else` follows. -/
def form (r : Rank) : Language Stmt where
  Derivation := Form r
  yield := Form.yield
  build := Form.build
  Suits d ts := d.Limited ∧ d.ElseNearest ∧ (d.isOpen = true → Without (· = .elseWord) ts)

/-- The lists of declarations up to the end or a token of the kind `close`. -/
def forms (close : Kind) : Language (List Stmt) where
  Derivation := Forms
  yield := Forms.yield
  build := Forms.build
  Suits d ts := d.Limited ∧ d.ElseNearest ∧ (ts = [] ∨ ∃ (t : Word close) (us : List Token), ts = t.1 :: us)

section

variable {n m : Nat} {statement : Parse Stmt} {body : Parse (List Stmt)} {c c' : Cursor} {s : Stmt}

theorem clean_whileStatement (word : Word .whileWord) (hg : Grows statement)
    (hs : Reads statement (form .statement) n) (hm : n ≤ m) (hn : c.rest.length ≤ n) :
    Clean (whileStatement m statement) c s c' ↔
      ∃ (d : Condition) (body : Form .statement) (ts : List Token), c.rest = d.yield ++ (body.yield ++ ts) ∧
        d.test.Limited ∧ (form .statement).Suits body ts ∧
          s = ((Form.while word d body).build c.fresh).1 ∧
            c' = c.moved ts ((Form.while word d body).build c.fresh).2 := by
  rw [whileStatement, clean_condition (fun _ => hg.bind fun _ => grows_pure _) (Nat.le_trans hn hm)]
  constructor
  · rintro ⟨d, ts, hr, hl, h⟩
    have hlen : ts.length ≤ n := by simp [hr] at hn; omega
    obtain ⟨body, us, hb, hf, h⟩ := (hs.bind_iff hg (fun _ => grows_pure _) hlen).1 h
    have hb : ts = body.yield ++ us := hb
    obtain ⟨rfl, rfl⟩ := clean_pure.1 h
    exact ⟨d, body, us, hb ▸ hr, hl, hf, rfl, rfl⟩
  · rintro ⟨d, body, ts, hr, hl, hf, rfl, rfl⟩
    have hlen : (body.yield ++ ts).length ≤ n := by simp [hr] at hn; simp; omega
    refine ⟨d, _, hr, hl, (hs.bind_iff hg (fun _ => grows_pure _) hlen).2 ?_⟩
    exact ⟨body, ts, rfl, hf, clean_pure.2 ⟨rfl, rfl⟩⟩

theorem clean_forStatement (word : Word .forWord) (hg : Grows statement) (hs : Reads statement (form .statement) n)
    (hm : n ≤ m) (hn : c.rest.length ≤ n) : Clean (forStatement m statement) c s c' ↔
      ∃ (d : ForClauses) (body : Form .statement) (ts : List Token), c.rest = d.yield ++ (body.yield ++ ts) ∧
        d.Limited ∧ (form .statement).Suits body ts ∧
          s = ((Form.for word d body).build c.fresh).1 ∧ c' = c.moved ts ((Form.for word d body).build c.fresh).2 := by
  have hg₁ : ∀ start test step, Grows (statement >>= fun body => pure (loopOf start test step body)) :=
    fun _ _ _ => hg.bind fun _ => grows_pure _
  have hg₂ := fun start test => grows_optionalUpTo m .rightParen "')' after for clauses" (hg₁ start test)
  have hg₃ := fun start => grows_optionalUpTo m .semicolon "';' after loop condition" (hg₂ start)
  simp only [forStatement_eq, ofFor_eq]
  rw [clean_expect_bind]
  constructor
  · rintro ⟨opening, ts₀, hr₀, h⟩
    have hlen₀ : ts₀.length ≤ n := by simp [hr₀] at hn; omega
    obtain ⟨o, c₁, h₁, h⟩ := (clean_bind (grows_forInitializer m) hg₃).1 h
    obtain ⟨start, ts₁, hr₁, hl₁, rfl, rfl⟩ := (clean_forInitializer (Nat.le_trans hlen₀ hm)).1 h₁
    have hr₁ : ts₀ = start.yield ++ ts₁ := hr₁
    have hlen₁ : ts₁.length ≤ n := by simp [hr₁] at hlen₀; omega
    obtain ⟨test, semicolon, ts₂, hr₂, hl₂, h⟩ := (clean_optionalUpTo rfl rfl (hg₂ _) (Nat.le_trans hlen₁ hm)).1 h
    have hr₂ : ts₁ = test.yield ++ semicolon.1 :: ts₂ := hr₂
    have hlen₂ : ts₂.length ≤ n := by simp [hr₂] at hlen₁; omega
    obtain ⟨step, closing, ts₃, hr₃, hl₃, h⟩ := (clean_optionalUpTo rfl rfl (hg₁ _ _) (Nat.le_trans hlen₂ hm)).1 h
    have hr₃ : ts₂ = step.yield ++ closing.1 :: ts₃ := hr₃
    have hlen₃ : ts₃.length ≤ n := by simp [hr₃] at hlen₂; omega
    obtain ⟨body, us, hb, hf, h⟩ := (hs.bind_iff hg (fun _ => grows_pure _) hlen₃).1 h
    have hb : ts₃ = body.yield ++ us := hb
    obtain ⟨rfl, rfl⟩ := clean_pure.1 h
    refine ⟨⟨opening, start, test, semicolon, step, closing⟩, body, us, ?_, ⟨hl₁, hl₂, hl₃⟩, hf, rfl, rfl⟩
    rw [hr₀, hr₁, hr₂, hr₃, hb]
    simp [ForClauses.yield]
  · rintro ⟨d, body, ts, hr, ⟨hl₁, hl₂, hl₃⟩, hf, rfl, rfl⟩
    obtain ⟨opening, start, test, semicolon, step, closing⟩ := d
    have hr : c.rest = opening.1 :: (start.yield ++ (test.yield ++ semicolon.1 :: (step.yield ++ closing.1 ::
        (body.yield ++ ts)))) := by
      rw [hr]
      simp [ForClauses.yield]
    have hlen : c.rest.length ≤ n := hn
    rw [hr] at hlen
    simp only [List.length_cons, List.length_append] at hlen
    have hstart := (@clean_forInitializer m (c.moved (start.yield ++ (test.yield ++ semicolon.1 :: (step.yield ++
      closing.1 :: (body.yield ++ ts)))) c.fresh) _ _ (by simp; omega)).2 ⟨start, _, rfl, hl₁, rfl, rfl⟩
    refine ⟨opening, _, hr, (clean_bind (grows_forInitializer m) hg₃).2 ⟨_, _, hstart, ?_⟩⟩
    refine (clean_optionalUpTo rfl rfl (hg₂ _) (by simp; omega)).2 ⟨test, semicolon, _, rfl, hl₂, ?_⟩
    refine (clean_optionalUpTo rfl rfl (hg₁ _ _) (by simp; omega)).2 ⟨step, closing, _, rfl, hl₃, ?_⟩
    refine (hs.bind_iff hg (fun _ => grows_pure _) (by simp; omega)).2 ?_
    exact ⟨body, ts, rfl, hf, clean_pure.2 ⟨rfl, rfl⟩⟩

theorem clean_ifStatement (word : Word .ifWord) (hg : Grows statement) (hs : Reads statement (form .statement) n)
    (hm : n ≤ m) (hn : c.rest.length ≤ n) : Clean (ifStatement m statement) c s c' ↔
      ∃ (d : Condition) (yes : Form .statement) (ts : List Token), c.rest = d.yield ++ (yes.yield ++ ts) ∧
        d.test.Limited ∧ (form .statement).Suits yes ts ∧
          ((∃ (other : Word .elseWord) (no : Form .statement) (us : List Token), ts = other.1 :: (no.yield ++ us) ∧
              (form .statement).Suits no us ∧ s = ((Form.ifElse word d yes other no).build c.fresh).1 ∧
                c' = c.moved us ((Form.ifElse word d yes other no).build c.fresh).2) ∨
            (Without (· = .elseWord) ts ∧ s = ((Form.if word d yes).build c.fresh).1 ∧
              c' = c.moved ts ((Form.if word d yes).build c.fresh).2)) := by
  have hg₁ : ∀ test yes, Grows (accept .elseWord >>= fun b =>
      if b = true then some <$> statement >>= fun no => pure (Stmt.conditional test yes no)
      else pure none >>= fun no => pure (Stmt.conditional test yes no)) := fun _ _ =>
    (grows_accept _).bind fun _ =>
      .ite _ ((hg.map _).bind fun _ => grows_pure _) ((grows_pure _).bind fun _ => grows_pure _)
  rw [ifStatement, clean_condition (fun test => hg.bind (hg₁ test)) (Nat.le_trans hn hm)]
  constructor
  · rintro ⟨d, ts, hr, hl, h⟩
    have hlen : ts.length ≤ n := by simp [hr] at hn; omega
    obtain ⟨yes, us, hy, hf, h⟩ := (hs.bind_iff hg (hg₁ _) hlen).1 h
    have hy : ts = yes.yield ++ us := hy
    have hlen' : us.length ≤ n := by simp [hy] at hlen; omega
    refine ⟨d, yes, us, hy ▸ hr, hl, hf, ?_⟩
    rcases clean_accept_bind.1 h with ⟨other, vs, ho, h⟩ | ⟨hw, h⟩
    · have ho : us = other.1 :: vs := ho
      have hlen'' : vs.length ≤ n := by simp [ho] at hlen'; omega
      simp only [if_true, map_def, bind_assoc, pure_bind] at h
      obtain ⟨no, ws, hno, hf', h⟩ := (hs.bind_iff hg (fun _ => grows_pure _) hlen'').1 h
      have hno : vs = no.yield ++ ws := hno
      obtain ⟨rfl, rfl⟩ := clean_pure.1 h
      exact .inl ⟨other, no, ws, by rw [ho, hno], hf', rfl, rfl⟩
    · obtain ⟨rfl, rfl⟩ := clean_pure.1 h
      exact .inr ⟨hw, rfl, rfl⟩
  · rintro ⟨d, yes, ts, hr, hl, hf, h⟩
    have hlen : (yes.yield ++ ts).length ≤ n := by simp [hr] at hn; simp; omega
    refine ⟨d, _, hr, hl, (hs.bind_iff hg (hg₁ _) hlen).2 ⟨yes, ts, rfl, hf, clean_accept_bind.2 ?_⟩⟩
    rcases h with ⟨other, no, us, ho, hf', rfl, rfl⟩ | ⟨hw, rfl, rfl⟩
    · have hlen' : (no.yield ++ us).length ≤ n := by simp [ho] at hlen; simp; omega
      refine .inl ⟨other, _, ho, ?_⟩
      simp only [if_true, map_def, bind_assoc, pure_bind]
      refine (hs.bind_iff hg (fun _ => grows_pure _) hlen').2 ?_
      exact ⟨no, us, rfl, hf', clean_pure.2 ⟨rfl, rfl⟩⟩
    · exact .inr ⟨hw, clean_pure.2 ⟨rfl, rfl⟩⟩

theorem clean_block (hg : Grows body) (hb : Reads body (forms .rightBrace) n) (hn : c.rest.length ≤ n)
    {ss : List Stmt} : Clean (block body) c ss c' ↔
      ∃ (d : Forms) (closing : Word .rightBrace) (ts : List Token), c.rest = d.yield ++ closing.1 :: ts ∧ d.Limited ∧
        d.ElseNearest ∧ ss = (d.build c.fresh).1 ∧ c' = c.moved ts (d.build c.fresh).2 := by
  rw [block, hb.bind_iff hg (fun _ => (grows_expect _ _).bind fun _ => grows_pure _) hn]
  simp only [clean_expect_bind, clean_pure]
  constructor
  · rintro ⟨d, r, hr, hf, closing, ts, hc, rfl, rfl⟩
    have hc : r = closing.1 :: ts := hc
    exact ⟨d, closing, ts, hc ▸ hr, hf.1, hf.2.1, rfl, rfl⟩
  · rintro ⟨d, closing, ts, hr, hl, hne, rfl, rfl⟩
    exact ⟨d, closing.1 :: ts, hr, ⟨hl, hne, .inr ⟨closing, ts, rfl⟩⟩, closing, ts, rfl, rfl, rfl⟩

/-- The rule for a statement behind its first word, by the kind of the word. -/
def statementFrom (n : Nat) (statement : Parse Stmt) (body : Parse (List Stmt)) (word : Token) : Kind → Parse Stmt
  | .forWord => forStatement n statement
  | .ifWord => ifStatement n statement
  | .printWord => printStatement n
  | .returnWord => returnStatement n word
  | .whileWord => whileStatement n statement
  | _ => block body >>= fun ss => pure (.block ss)

theorem statementWith_eq (n : Nat) (statement : Parse Stmt) (body : Parse (List Stmt)) :
    statementWith n statement body = take? beginsForm >>= fun o =>
      match o with
      | none => expressionStatement n
      | some t => statementFrom n statement body t t.kind := rfl

theorem begins_not_beginsForm (k : Kind) (h : begins k = true) : beginsForm k = false := by
  cases k <;> first | rfl | cases h

theorem exists_expression {d : Form .statement} {r : List Token} (h : Without beginsForm (d.yield ++ r)) :
    ∃ value semicolon, d = .expression value semicolon := by
  have hword : ∀ {kind : Kind} (w : Word kind) (ts : List Token), beginsForm kind = true →
      ¬ Without beginsForm (w.1 :: ts) := fun w ts hk hw => not_without ⟨w.1, by rw [w.kind_eq, hk]⟩ ts hw
  cases d with
  | expression value semicolon => exact ⟨value, semicolon, rfl⟩
  | «for» word _ _ => exact absurd h (hword word _ rfl)
  | «if» word _ _ => exact absurd h (hword word _ rfl)
  | ifElse word _ _ _ _ => exact absurd h (hword word _ rfl)
  | print word _ _ => exact absurd h (hword word _ rfl)
  | «return» word _ _ => exact absurd h (hword word _ rfl)
  | «while» word _ _ => exact absurd h (hword word _ rfl)
  | block opening _ _ => exact absurd h (hword opening _ rfl)

/-- What the rule reads behind the first word of a statement, together with that word. -/
theorem derivation_of_clean (hgs : Grows statement) (hgb : Grows body) (hs : Reads statement (form .statement) n)
    (hb : Reads body (forms .rightBrace) n) (hn : c.rest.length ≤ n) (t : OneOf beginsForm)
    (h : Clean (statementFrom (n + 1) statement body t.1 t.1.kind) c s c') :
    ∃ (d : Form .statement) (r : List Token), t.1 :: c.rest = d.yield ++ r ∧ (form .statement).Suits d r ∧
      s = (d.build c.fresh).1 ∧ c' = c.moved r (d.build c.fresh).2 := by
  have hn' : c.rest.length ≤ n + 1 := by omega
  obtain ⟨t, ht⟩ := t
  simp only at h
  cases hk : t.kind <;> rw [hk] at ht h <;> first | (cases ht; done) | skip
  case forWord =>
    obtain ⟨d, b, ts, hr, hl, hf, rfl, rfl⟩ :=
      (clean_forStatement ⟨t, decide_eq_true hk⟩ hgs hs (Nat.le_succ n) hn).1 h
    exact ⟨.for ⟨t, decide_eq_true hk⟩ d b, ts, by rw [hr]; simp [Form.yield], ⟨⟨hl, hf.1⟩, hf.2⟩, rfl, rfl⟩
  case ifWord =>
    obtain ⟨d, yes, ts, hr, hl, hf, h⟩ :=
      (clean_ifStatement ⟨t, decide_eq_true hk⟩ hgs hs (Nat.le_succ n) hn).1 h
    rcases h with ⟨other, no, us, rfl, hf', rfl, rfl⟩ | ⟨hw, rfl, rfl⟩
    · refine ⟨.ifElse ⟨t, decide_eq_true hk⟩ d yes other no, us, by rw [hr]; simp [Form.yield], ?_, rfl, rfl⟩
      -- an open branch would have taken this very `else`
      have hopen : yes.isOpen = false := by
        rw [← Bool.not_eq_true]
        exact fun ho => not_without other _ (hf.2.2 ho)
      exact ⟨⟨hl, hf.1, hf'.1⟩, ⟨hopen, hf.2.1, hf'.2.1⟩, hf'.2.2⟩
    · exact ⟨.if ⟨t, decide_eq_true hk⟩ d yes, ts, by rw [hr]; simp [Form.yield],
        ⟨⟨hl, hf.1⟩, hf.2.1, fun _ => hw⟩, rfl, rfl⟩
  case printWord =>
    obtain ⟨e, c₁, h₁, h₂⟩ := (clean_bind (grows_ended _ _) fun _ => grows_pure _).1 h
    obtain ⟨rfl, rfl⟩ := clean_pure.1 h₂
    obtain ⟨d, w, ts, hr, hl, rfl, rfl⟩ := (clean_ended hn').1 h₁
    exact ⟨.print ⟨t, decide_eq_true hk⟩ d w, ts, by rw [hr]; simp [Form.yield],
      ⟨hl, trivial, fun ho => by cases ho⟩, rfl, rfl⟩
  case returnWord =>
    have h : Clean (returnStatement (n + 1) t) c s c' := h
    rw [returnStatement_eq] at h
    obtain ⟨d, w, ts, hr, hl, h⟩ := (clean_optionalUpTo rfl rfl (fun _ => grows_pure _) hn').1 h
    obtain ⟨rfl, rfl⟩ := clean_pure.1 h
    exact ⟨.return ⟨t, decide_eq_true hk⟩ d w, ts, by rw [hr]; simp [Form.yield],
      ⟨hl, trivial, fun ho => by cases ho⟩, rfl, rfl⟩
  case whileWord =>
    obtain ⟨d, b, ts, hr, hl, hf, rfl, rfl⟩ :=
      (clean_whileStatement ⟨t, decide_eq_true hk⟩ hgs hs (Nat.le_succ n) hn).1 h
    exact ⟨.while ⟨t, decide_eq_true hk⟩ d b, ts, by rw [hr]; simp [Form.yield], ⟨⟨hl, hf.1⟩, hf.2⟩, rfl, rfl⟩
  case leftBrace =>
    obtain ⟨ss, c₁, h₁, h₂⟩ := (clean_bind (grows_block hgb) fun _ => grows_pure _).1 h
    obtain ⟨rfl, rfl⟩ := clean_pure.1 h₂
    obtain ⟨d, closing, ts, hr, hl, hne, rfl, rfl⟩ := (clean_block hgb hb hn).1 h₁
    exact ⟨.block ⟨t, decide_eq_true hk⟩ d closing, ts, by rw [hr]; simp [Form.yield],
      ⟨hl, hne, fun ho => by cases ho⟩, rfl, rfl⟩

/-- What the rule reads of a statement that begins with a word, behind that word. -/
theorem clean_of_derivation (hgs : Grows statement) (hgb : Grows body) (hs : Reads statement (form .statement) n)
    (hb : Reads body (forms .rightBrace) n) (hn : c.rest.length ≤ n) (t : OneOf beginsForm) {d : Form .statement}
    {r : List Token} (hd : t.1 :: c.rest = d.yield ++ r) (hf : (form .statement).Suits d r) :
    Clean (statementFrom (n + 1) statement body t.1 t.1.kind) c (d.build c.fresh).1
      (c.moved r (d.build c.fresh).2) := by
  have hn' : c.rest.length ≤ n + 1 := by omega
  obtain ⟨t, ht⟩ := t
  obtain ⟨hl, hne, ho⟩ := hf
  cases d with
  | expression value semicolon =>
    obtain ⟨u, us, hu, hbegins⟩ := value.exists_head
    simp only [Form.yield, hu, List.cons_append, List.cons.injEq] at hd
    rw [hd.1, begins_not_beginsForm u.kind hbegins] at ht
    cases ht
  | «for» word clauses b =>
    obtain ⟨rfl, hr⟩ : t = word.1 ∧ c.rest = clauses.yield ++ (b.yield ++ r) := by simpa [Form.yield] using hd
    simp only [word.kind_eq]
    exact (clean_forStatement word hgs hs (Nat.le_succ n) hn).2 ⟨clauses, b, r, hr, hl.1, ⟨hl.2, hne, ho⟩, rfl, rfl⟩
  | «if» word condition yes =>
    obtain ⟨rfl, hr⟩ : t = word.1 ∧ c.rest = condition.yield ++ (yes.yield ++ r) := by simpa [Form.yield] using hd
    simp only [word.kind_eq]
    exact (clean_ifStatement word hgs hs (Nat.le_succ n) hn).2
      ⟨condition, yes, r, hr, hl.1, ⟨hl.2, hne, fun _ => ho rfl⟩, .inr ⟨ho rfl, rfl, rfl⟩⟩
  | ifElse word condition yes other no =>
    obtain ⟨rfl, hr⟩ : t = word.1 ∧ c.rest = condition.yield ++ (yes.yield ++ other.1 :: (no.yield ++ r)) := by
      simpa [Form.yield] using hd
    have hyes : (form .statement).Suits yes (other.1 :: (no.yield ++ r)) :=
      ⟨hl.2.1, hne.2.1, fun h => by rw [hne.1] at h; cases h⟩
    simp only [word.kind_eq]
    exact (clean_ifStatement word hgs hs (Nat.le_succ n) hn).2 ⟨condition, yes, _, hr, hl.1, hyes,
      .inl ⟨other, no, r, rfl, ⟨hl.2.2, hne.2.2, ho⟩, rfl, rfl⟩⟩
  | print word value semicolon =>
    obtain ⟨rfl, hr⟩ : t = word.1 ∧ c.rest = value.yield ++ semicolon.1 :: r := by simpa [Form.yield] using hd
    have h := (@clean_ended _ "';' after value" _ _ _ hn').2 ⟨value, semicolon, r, hr, hl, rfl, rfl⟩
    simp only [word.kind_eq]
    exact (clean_bind (grows_ended _ _) fun _ => grows_pure _).2 ⟨_, _, h, clean_pure.2 ⟨rfl, rfl⟩⟩
  | «return» word value semicolon =>
    obtain ⟨rfl, hr⟩ : t = word.1 ∧ c.rest = value.yield ++ semicolon.1 :: r := by simpa [Form.yield] using hd
    simp only [word.kind_eq]
    exact (clean_optionalUpTo rfl rfl (fun _ => grows_pure _) hn').2
      ⟨value, semicolon, r, hr, hl, clean_pure.2 ⟨rfl, rfl⟩⟩
  | «while» word condition b =>
    obtain ⟨rfl, hr⟩ : t = word.1 ∧ c.rest = condition.yield ++ (b.yield ++ r) := by simpa [Form.yield] using hd
    simp only [word.kind_eq]
    exact (clean_whileStatement word hgs hs (Nat.le_succ n) hn).2
      ⟨condition, b, r, hr, hl.1, ⟨hl.2, hne, ho⟩, rfl, rfl⟩
  | block opening b closing =>
    obtain ⟨rfl, hr⟩ : t = opening.1 ∧ c.rest = b.yield ++ closing.1 :: r := by simpa [Form.yield] using hd
    have h := (clean_block hgb hb hn).2 ⟨b, closing, r, hr, hl, hne, rfl, rfl⟩
    simp only [opening.kind_eq]
    exact (clean_bind (grows_block hgb) fun _ => grows_pure _).2 ⟨_, _, h, clean_pure.2 ⟨rfl, rfl⟩⟩

theorem reads_statementWith (hgs : Grows statement) (hgb : Grows body) (hs : Reads statement (form .statement) n)
    (hb : Reads body (forms .rightBrace) n) :
      Reads (statementWith (n + 1) statement body) (form .statement) (n + 1) := by
  intro c s c' hn
  have hlen : ∀ {t : Token} {ts : List Token}, c.rest = t :: ts → ts.length ≤ n := fun h => by simp [h] at hn; omega
  rw [statementWith_eq, clean_take?_bind]
  constructor
  · rintro (⟨t, ts, hr, h⟩ | ⟨-, h⟩)
    · obtain ⟨d, r, hd, hf, rfl, rfl⟩ := derivation_of_clean hgs hgb hs hb (hlen hr) t h
      exact ⟨d, r, hr.trans hd, hf, rfl, rfl⟩
    · obtain ⟨e, c₁, h₁, h₂⟩ := (clean_bind (grows_ended _ _) fun _ => grows_pure _).1 h
      obtain ⟨rfl, rfl⟩ := clean_pure.1 h₂
      obtain ⟨d, w, ts, hr, hl, rfl, rfl⟩ := (clean_ended hn).1 h₁
      exact ⟨.expression d w, ts, by rw [hr]; simp [form, Form.yield], ⟨hl, trivial, fun ho => by cases ho⟩, rfl, rfl⟩
  · rintro ⟨d, r, hr, hf, rfl, rfl⟩
    rcases next_cases beginsForm c.rest with ⟨t, ts, ht⟩ | hw
    · refine .inl ⟨t, ts, ht, ?_⟩
      exact clean_of_derivation hgs hgb hs hb (hlen ht) t (ht.symm.trans hr) hf
    · obtain ⟨value, semicolon, rfl⟩ := exists_expression (hr ▸ hw)
      have hr : c.rest = value.yield ++ semicolon.1 :: r := by simpa [form, Form.yield] using hr
      have h := (@clean_ended _ "';' after expression" _ _ _ hn).2 ⟨value, semicolon, r, hr, hf.1, rfl, rfl⟩
      refine .inr ⟨hw, ?_⟩
      exact (clean_bind (grows_ended _ _) fun _ => grows_pure _).2 ⟨_, _, h, clean_pure.2 ⟨rfl, rfl⟩⟩

end

/-! ## Declarations -/

/-- The parameter lists that come after `i` others. -/
def parameters (i : Nat) : Language (List Token) where
  Derivation := Parameters
  yield := Parameters.yield
  build d k := (d.names, k)
  Suits d ts := i + d.names.length ≤ maxArity ∧ Without (· = .comma) ts

theorem reads_parameters (what : String) :
    ∀ m i, Reads (separated (counted (expect .identifier what) "parameters") m i) (parameters i) m := by
  have hg := grows_expect .identifier what
  intro m
  induction m with
  | zero =>
    intro i c a c' hc
    have hr : c.rest = [] := List.length_eq_zero_iff.1 (Nat.le_zero.1 hc)
    constructor
    · intro h
      refine absurd h (not_clean_separated_nil hg fun x c₁ h₁ => ?_)
      obtain ⟨w, ts, hw, -⟩ := clean_expect.1 h₁
      rw [hr] at hw
      cases hw
    · rintro ⟨d, r, hd, -⟩
      rw [hr] at hd
      cases d <;> cases hd
  | succ m ih =>
    intro i c a c' hc
    rw [clean_separated hg]
    constructor
    · rintro ⟨hi, x, c₁, h₁, h₂⟩
      obtain ⟨w, r₁, hr₁, rfl, rfl⟩ := clean_expect.1 h₁
      rcases h₂ with ⟨t, ts, ys, ht, rfl, h₂⟩ | ⟨hw, rfl, rfl⟩
      · have ht : r₁ = t.1 :: ts := ht
        have hlen : ts.length ≤ m := by simp [hr₁, ht] at hc; omega
        obtain ⟨d, r, hr, hf, rfl, rfl⟩ := (ih (i + 1)).derivation hlen h₂
        have hr : ts = d.yield ++ r := hr
        refine ⟨.more w t d, r, by rw [hr₁, ht, hr]; rfl, ⟨?_, hf.2⟩, rfl, rfl⟩
        have := hf.1
        simp only [Parameters.names, List.length_cons]
        omega
      · exact ⟨.last w, r₁, hr₁, ⟨hi, hw⟩, rfl, rfl⟩
    · rintro ⟨d, r, hd, ⟨hi, hw⟩, rfl, rfl⟩
      cases d with
      | last name =>
        exact ⟨hi, _, _, clean_expect.2 ⟨name, r, hd, rfl, rfl⟩, .inr ⟨hw, rfl, rfl⟩⟩
      | more name comma rest =>
        have hd : c.rest = name.1 :: comma.1 :: (rest.yield ++ r) := hd
        have hlen : (rest.yield ++ r).length ≤ m := by simp [hd] at hc; simp; omega
        simp only [Parameters.names, List.length_cons] at hi
        refine ⟨by omega, _, _, clean_expect.2 ⟨name, _, hd, rfl, rfl⟩, .inl ⟨comma, _, _, rfl, rfl, ?_⟩⟩
        exact (ih (i + 1)).clean (d := rest) hlen rfl ⟨by omega, hw⟩

/-- A function's head, and what is read behind it. -/
theorem clean_header {m : Nat} {w₁ w₂ w₃ w₄ : String} {f : Token → List Token → Parse β} (hf : ∀ t ps, Grows (f t ps))
    {c c' : Cursor} {b : β} (hn : c.rest.length ≤ m) :
    Clean (expect .identifier w₁ >>= fun name => expect .leftParen w₂ >>= fun _ =>
        listed (expect .identifier w₃) "parameters" m >>= fun ps => expect .rightParen w₄ >>= fun _ => f name ps)
        c b c' ↔
      ∃ (h : Header) (ts : List Token), c.rest = h.yield ++ ts ∧ h.names.length ≤ maxArity ∧
        Clean (f h.name.1 h.names) (c.moved ts c.fresh) b c' := by
  have hg := grows_expect .identifier w₃
  have hgs := grows_separated (grows_counted hg "parameters") m 0
  have hgf : ∀ t ps, Grows (expect .rightParen w₄ >>= fun _ => f t ps) := fun t ps =>
    (grows_expect _ _).bind fun _ => hf t ps
  simp only [clean_expect_bind, listed_eq, bind_assoc, clean_sees_bind]
  constructor
  · rintro ⟨name, ts, hr, opening, us, ho, h⟩
    have ho : ts = opening.1 :: us := ho
    have hlen : us.length ≤ m := by simp [hr, ho] at hn; omega
    split at h
    · obtain ⟨closing, vs, hc, h⟩ := clean_expect_bind.1 h
      have hc : us = closing.1 :: vs := hc
      exact ⟨⟨name, opening, none, closing⟩, vs, by rw [hr, ho, hc]; rfl, Nat.zero_le _, h⟩
    · obtain ⟨d, vs, hd, hfit, h⟩ := ((reads_parameters w₃ m 0).bind_iff hgs (hgf name.1) hlen).1 h
      obtain ⟨closing, ws, hc, h⟩ := clean_expect_bind.1 h
      have hd : us = d.yield ++ vs := hd
      have hc : vs = closing.1 :: ws := hc
      refine ⟨⟨name, opening, some d, closing⟩, ws, ?_, (Nat.zero_add _).symm.trans_le hfit.1, h⟩
      rw [hr, ho, hd, hc, Header.yield_append]
      rfl
  · rintro ⟨⟨name, opening, params, closing⟩, ts, hr, hl, h⟩
    rw [Header.yield_append] at hr
    refine ⟨name, _, hr, opening, _, rfl, ?_⟩
    cases params with
    | none =>
      rw [if_pos (by simp [Cursor.sees, closing.kind_eq])]
      exact clean_expect_bind.2 ⟨closing, ts, rfl, h⟩
    | some d =>
      have hw : Without (· = .rightParen) (d.yield ++ closing.1 :: ts) :=
        without_of_head (q := (· = .identifier)) d.head (ne_of_sort rfl) _
      have hlen : (d.yield ++ closing.1 :: ts).length ≤ m := by simp [hr] at hn; simp; omega
      rw [if_neg (by simpa using without_iff_not_sees.1 hw)]
      refine ((reads_parameters w₃ m 0).bind_iff hgs (hgf name.1) hlen).2 ⟨d, _, rfl, ⟨?_, ?_⟩, ?_⟩
      · simpa [Header.names] using hl
      · exact without_cons.2 (by rw [closing.kind_eq]; rfl)
      · exact clean_expect_bind.2 ⟨closing, ts, rfl, h⟩

section

variable {n m : Nat} {statement : Parse Stmt} {body : Parse (List Stmt)} {c c' : Cursor} {s : Stmt}

theorem functionDeclaration_eq (m : Nat) (body : Parse (List Stmt)) : functionDeclaration m body =
    expect .identifier "function name" >>= fun name => expect .leftParen "'(' after function name" >>= fun _ =>
      listed (expect .identifier "parameter name") "parameters" m >>= fun ps =>
        expect .rightParen "')' after parameters" >>= fun _ =>
          expect .leftBrace "'\x7b' before function body" >>= fun _ =>
          block body >>= fun ss => pure (.function name ps ss) := rfl

theorem clean_functionDeclaration (word : Word .funWord) (hg : Grows body) (hb : Reads body (forms .rightBrace) n)
    (hm : n ≤ m) (hn : c.rest.length ≤ n) : Clean (functionDeclaration m body) c s c' ↔
      ∃ (h : Header) (opening : Word .leftBrace) (d : Forms) (closing : Word .rightBrace) (ts : List Token),
        c.rest = h.yield ++ opening.1 :: (d.yield ++ closing.1 :: ts) ∧ h.names.length ≤ maxArity ∧ d.Limited ∧
          d.ElseNearest ∧ s = ((Form.function word h opening d closing).build c.fresh).1 ∧
            c' = c.moved ts ((Form.function word h opening d closing).build c.fresh).2 := by
  have hg₁ : ∀ (name : Token) (ps : List Token),
      Grows (block body >>= fun ss => pure (Stmt.function name ps ss)) := fun _ _ =>
    (grows_block hg).bind fun _ => grows_pure _
  rw [functionDeclaration_eq,
    clean_header (fun name ps => (grows_expect _ _).bind fun _ => hg₁ name ps) (Nat.le_trans hn hm)]
  simp only [clean_expect_bind, clean_bind (grows_block hg) fun _ => grows_pure _, clean_pure]
  constructor
  · rintro ⟨h, ts, hr, hl, opening, us, ho, ss, c₁, h₁, rfl, rfl⟩
    have ho : ts = opening.1 :: us := ho
    have hlen : us.length ≤ n := by simp [hr, ho] at hn; omega
    obtain ⟨d, closing, vs, hd, hdl, hdn, rfl, rfl⟩ := (clean_block hg hb hlen).1 h₁
    have hd : us = d.yield ++ closing.1 :: vs := hd
    exact ⟨h, opening, d, closing, vs, by rw [hr, ho, hd], hl, hdl, hdn, rfl, rfl⟩
  · rintro ⟨h, opening, d, closing, ts, hr, hl, hdl, hdn, rfl, rfl⟩
    have hlen : (d.yield ++ closing.1 :: ts).length ≤ n := by simp [hr] at hn; simp; omega
    refine ⟨h, _, hr, hl, opening, _, rfl, _, _, ?_, rfl, rfl⟩
    exact (clean_block hg hb hlen).2 ⟨d, closing, ts, rfl, hdl, hdn, rfl, rfl⟩

/-- The rule for a declaration reads it, given that the rules for statements and bodies read theirs.  Behind the word
`fun` one token less is left than in front of it. -/
theorem reads_declared {k : Nat} (hgb : Grows body) (hk : k ≤ n + 1)
    (hs : Reads statement (form .statement) k) (hb : Reads body (forms .rightBrace) n) :
    Reads (declared k statement body) (form .declaration) k := by
  intro c s c' hn
  have hlen : ∀ {t : Token} {ts : List Token}, c.rest = t :: ts → ts.length ≤ k - 1 := fun h => by
    simp [h] at hn
    omega
  have hb' : Reads body (forms .rightBrace) (k - 1) := hb.mono (by omega)
  simp only [declared, clean_accept_bind, if_true, Bool.false_eq_true, if_false]
  constructor
  · rintro (⟨word, ts, hr, h⟩ | ⟨-, ⟨word, ts, hr, h⟩ | ⟨-, h⟩⟩)
    · obtain ⟨header, opening, d, closing, us, hd, hl, hdl, hdn, rfl, rfl⟩ :=
        (clean_functionDeclaration word hgb hb' (Nat.sub_le k 1) (hlen hr)).1 h
      have hd : ts = header.yield ++ opening.1 :: (d.yield ++ closing.1 :: us) := hd
      refine ⟨.function word header opening d closing, us, ?_, ⟨⟨hl, hdl⟩, hdn, fun ho => by cases ho⟩, rfl, rfl⟩
      rw [hr, hd]
      simp [form, Form.yield]
    · obtain ⟨name, i, semicolon, us, hd, hl, rfl, rfl⟩ :=
        (clean_varDeclaration (Nat.le_trans (hlen hr) (Nat.sub_le k 1))).1 h
      have hd : ts = name.1 :: (i.yield ++ semicolon.1 :: us) := hd
      refine ⟨.var ⟨word, name, i, semicolon⟩, us, ?_, ⟨hl, trivial, fun ho => by cases ho⟩, rfl, rfl⟩
      rw [hr, hd]
      simp [form, Form.yield, VarForm.yield]
    · obtain ⟨d, r, hr, hf, rfl, rfl⟩ := hs.derivation hn h
      exact ⟨.statement d, r, hr, hf, rfl, rfl⟩
  · rintro ⟨d, r, hd, hf, rfl, rfl⟩
    cases d with
    | function word h opening d closing =>
      have hr : c.rest = word.1 :: (h.yield ++ opening.1 :: (d.yield ++ closing.1 :: r)) := by
        rw [hd]
        simp [form, Form.yield]
      refine .inl ⟨word, _, hr, ?_⟩
      exact (clean_functionDeclaration word hgb hb' (Nat.sub_le k 1) (hlen hr)).2
        ⟨h, opening, d, closing, r, rfl, hf.1.1, hf.1.2, hf.2.1, rfl, rfl⟩
    | var v =>
      have hr : c.rest = v.word.1 :: v.name.1 :: (v.initializer.yield ++ v.semicolon.1 :: r) := by
        rw [hd]
        simp [form, Form.yield, VarForm.yield]
      refine .inr ⟨by rw [hr, without_cons, v.word.kind_eq]; rfl, .inl ⟨v.word, _, hr, ?_⟩⟩
      exact (clean_varDeclaration (Nat.le_trans (hlen hr) (Nat.sub_le k 1))).2
        ⟨v.name, v.initializer, v.semicolon, r, rfl, hf.1, rfl, rfl⟩
    | statement d =>
      have hw : ∀ kind, opensStatement kind = false → Without (· = kind) c.rest := fun kind hk =>
        hd ▸ without_of_head d.statement_head (ne_of_sort hk) r
      exact .inr ⟨hw _ rfl, .inr ⟨hw _ rfl, hs.clean (d := d) hn hd hf⟩⟩

theorem declarations_succ (close : Kind) (one : Parse (Option Stmt)) (m : Nat) : declarations close one (m + 1) =
    sees close >>= fun b => if b = true then pure [] else atEnd >>= fun b => if b = true then pure [] else
      one >>= fun o => declarations close one m >>= fun ss => pure (o.toList ++ ss) := rfl

/-- Where a declaration begins, the list does not stop. -/
theorem goes_on {close : Kind} (ho : opens close = false) {c : Cursor} {d : Form .declaration} {r : List Token}
    (hd : c.rest = d.yield ++ r) : c.sees close = false ∧ c.rest.isEmpty = false := by
  refine ⟨without_iff_not_sees.1 (hd ▸ without_of_head d.declaration_head (ne_of_sort ho) r), ?_⟩
  rw [List.isEmpty_eq_false_iff, hd]
  exact ne_nil_of_head d.declaration_head r

/-- No `else` comes behind a declaration of a list. -/
theorem without_else {close : Kind} (hc : close ≠ .elseWord) {d : Forms} {r : List Token}
    (hf : (forms close).Suits d r) :
    Without (· = .elseWord) (d.yield ++ r) := by
  cases d with
  | nil =>
    rcases hf.2.2 with rfl | ⟨t, us, rfl⟩
    · exact without_nil _
    · exact without_cons.2 (by simpa [t.kind_eq] using hc)
  | cons first rest =>
    have h := without_of_head first.declaration_head (@ne_of_sort _ .elseWord rfl) (rest.yield ++ r)
    simpa [Forms.yield] using h

theorem reads_no_declarations (close : Kind) : Reads (pure []) (forms close) 0 := by
  intro c ss c' hn
  have hr : c.rest = [] := List.length_eq_zero_iff.1 (Nat.le_zero.1 hn)
  rw [clean_pure]
  constructor
  · rintro ⟨rfl, rfl⟩
    exact ⟨.nil, [], hr, ⟨trivial, trivial, .inl rfl⟩, rfl, (moved_of_nil hr).symm⟩
  · rintro ⟨d, r, hd, hf, rfl, rfl⟩
    cases d with
    | nil => exact ⟨rfl, moved_of_nil hd⟩
    | cons first rest =>
      have hd : c.rest = first.yield ++ (rest.yield ++ r) := by rw [hd]; simp [forms, Forms.yield]
      exact absurd (hd.symm.trans hr) (ne_nil_of_head first.declaration_head _)

theorem reads_declarations {close : Kind} (ho : opens close = false) (hc : close ≠ .elseWord) {k : Nat} {p : Parse Stmt}
    (hg : Grows p) (h : Reads p (form .declaration) k) :
    ∀ m ≤ k, Reads (declarations close (recovering p) m) (forms close) m := by
  intro m
  induction m with
  | zero => exact fun _ => reads_no_declarations close
  | succ m ih =>
    intro hm c ss c' hn
    have hgd := grows_declarations close (grows_recovering hg) m
    have hgm : ∀ o : Option Stmt, Grows (declarations close (recovering p) m >>= fun ss => pure (o.toList ++ ss)) :=
      fun _ => hgd.bind fun _ => grows_pure _
    rw [declarations_succ, clean_sees_bind]
    constructor
    · intro h'
      split at h'
      · next hsees =>
        obtain ⟨rfl, hc'⟩ := clean_pure.1 h'
        obtain ⟨t, ht, hk⟩ := (c.sees_iff close).1 hsees
        obtain ⟨us, hus⟩ := List.head?_eq_some_iff.1 ht
        exact ⟨.nil, c.rest, rfl, ⟨trivial, trivial, .inr ⟨⟨t, decide_eq_true hk⟩, us, hus⟩⟩, rfl, hc'⟩
      · rw [clean_atEnd_bind] at h'
        split at h'
        · next hempty =>
          obtain ⟨rfl, hc'⟩ := clean_pure.1 h'
          exact ⟨.nil, c.rest, rfl, ⟨trivial, trivial, .inl (List.isEmpty_iff.1 hempty)⟩, rfl, hc'⟩
        · obtain ⟨o, c₁, h₀, h₂⟩ := (clean_bind (grows_recovering hg) hgm).1 h'
          obtain ⟨s, rfl, h₁⟩ := (clean_recovering hg).1 h₀
          obtain ⟨first, r₁, hr₁, hf₁, rfl, rfl⟩ := h.derivation (by omega) h₁
          have hr₁ : c.rest = first.yield ++ r₁ := hr₁
          have hlen : r₁.length ≤ m := by
            obtain ⟨t, ts, ht, -⟩ := first.declaration_head
            simp [hr₁, ht] at hn
            omega
          obtain ⟨rest, r₂, hr₂, hf₂, h₃⟩ := ((ih (by omega)).bind_iff hgd (fun _ => grows_pure _) hlen).1 h₂
          have hr₂ : r₁ = rest.yield ++ r₂ := hr₂
          obtain ⟨rfl, rfl⟩ := clean_pure.1 h₃
          refine ⟨.cons first rest, r₂, ?_, ⟨⟨hf₁.1, hf₂.1⟩, ⟨hf₁.2.1, hf₂.2.1⟩, hf₂.2.2⟩, rfl, rfl⟩
          rw [hr₁, hr₂]
          simp [forms, Forms.yield]
    · rintro ⟨d, r, hd, hf, rfl, rfl⟩
      cases d with
      | nil =>
        have hd : c.rest = r := hd
        have hmoved : c.moved r c.fresh = c := by rw [← hd]; rfl
        rcases hf.2.2 with rfl | ⟨t, us, rfl⟩
        · rw [if_neg (by simp [Cursor.sees, hd]), clean_atEnd_bind, if_pos (by simp [hd])]
          exact clean_pure.2 ⟨rfl, hmoved⟩
        · rw [if_pos (by simp [Cursor.sees, hd, t.kind_eq])]
          exact clean_pure.2 ⟨rfl, hmoved⟩
      | cons first rest =>
        have hd : c.rest = first.yield ++ (rest.yield ++ r) := by rw [hd]; simp [forms, Forms.yield]
        obtain ⟨hsees, hempty⟩ := goes_on ho hd
        have hsuits : (forms close).Suits rest r := ⟨hf.1.2, hf.2.1.2, hf.2.2⟩
        have hlen : (rest.yield ++ r).length ≤ m := by
          obtain ⟨t, ts, ht, -⟩ := first.declaration_head
          simp [hd, ht] at hn
          simp
          omega
        have hfirst := h.clean (d := first) (r := rest.yield ++ r) (by omega) hd
          ⟨hf.1.1, hf.2.1.1, fun _ => without_else hc hsuits⟩
        rw [if_neg (by simp [hsees]), clean_atEnd_bind, if_neg (by simp [hempty])]
        refine (clean_bind (grows_recovering hg) hgm).2 ⟨_, _, (clean_recovering hg).2 ⟨_, rfl, hfirst⟩, ?_⟩
        refine ((ih (by omega)).bind_iff hgd (fun _ => grows_pure _) hlen).2 ⟨rest, r, rfl, hsuits, ?_⟩
        exact clean_pure.2 ⟨rfl, rfl⟩

end

theorem body_succ (n : Nat) : body (n + 1) =
    declarations .rightBrace (recovering (declared (n + 1) (statement (n + 1)) (body n))) (n + 1) := rfl

theorem reads_statement_zero : Reads (statement 0) (form .statement) 0 := by
  intro c s c' hn
  have hr : c.rest = [] := List.length_eq_zero_iff.1 (Nat.le_zero.1 hn)
  constructor
  · intro h
    obtain ⟨e, c₁, h₁, -⟩ := (clean_bind (grows_ended _ _) fun _ => grows_pure _).1 h
    obtain ⟨d, w, ts, hd, -⟩ := (clean_ended hn).1 h₁
    exact absurd (hd.symm.trans hr) (ne_nil_of_head d.exists_head _)
  · rintro ⟨d, r, hd, -⟩
    exact absurd (hd.symm.trans hr) (ne_nil_of_head d.statement_head r)

/-- **The rules for a statement and for the inside of a block read their part of the grammar.** -/
theorem reads_statement_and_body : ∀ n, Reads (statement n) (form .statement) n ∧ Reads (body n) (forms .rightBrace) n
  | 0 => ⟨reads_statement_zero, reads_no_declarations _⟩
  | n + 1 => by
    obtain ⟨hgs, hgb⟩ := grows_statement_and_body n
    obtain ⟨hs, hb⟩ := reads_statement_and_body n
    have hg := (grows_statement_and_body (n + 1)).1
    have h : Reads (statement (n + 1)) (form .statement) (n + 1) := reads_statementWith hgs hgb hs hb
    refine ⟨h, ?_⟩
    rw [body_succ]
    exact reads_declarations rfl (by decide) (grows_declared _ hg hgb) (reads_declared hgb (Nat.le_refl _) h hb)
      (n + 1) (Nat.le_refl _)

end Parse
end Scriptlet
