import Mathlib
import Scriptlet.Proofs.Accepted
import Scriptlet.Proofs.Numbering

/-!
# The shape of what is read

Every tree that the parser gives is well formed (`Stmt.Formed`) and its nodes have different numbers, whatever the
tokens and however many faults were met on the way (`parse_shaped`).  Each rule is given one lemma on what it gives, if
it gives anything (`Gives`); where it gives up, nothing of what it has read so far is kept but the numbers it has used.
-/
namespace Scriptlet

open Grammar (Symbol operandOf)

/-! ## Well-formed trees -/

/-- The operators with two sides, `and` and `or` apart. -/
def binaryKinds : List Kind :=
  [.bangEqual, .equalEqual, .greater, .greaterEqual, .less, .lessEqual, .minus, .plus, .slash, .star]

def logicalKinds : List Kind := [.andWord, .orWord]

def signKinds : List Kind := [.bang, .minus]

/-- How tightly an operator with two sides binds.  No other token binds anything. -/
def Kind.tightness : Kind → Nat
  | .orWord => 1
  | .andWord => 2
  | .bangEqual | .equalEqual => 3
  | .greater | .greaterEqual | .less | .lessEqual => 4
  | .minus | .plus => 5
  | .slash | .star => 6
  | _ => 0

def Parse.Level.tightness : Parse.Level → Nat
  | .or => 1
  | .and => 2
  | .equality => 3
  | .comparison => 4
  | .term => 5
  | .factor => 6

/-- The rules for expressions from the loosest to the tightest. -/
def Grammar.Symbol.tightness : Symbol → Nat
  | .assignment => 0
  | .level l => l.tightness
  | .unary => 7
  | .call => 8
  | .primary => 9

/-- How tightly the outermost part of an expression binds.  A group is as tight as a name. -/
def Expr.tightness : Expr → Nat
  | .assign _ _ _ => Symbol.assignment.tightness
  | .logical _ operator _ => operator.kind.tightness
  | .binary _ operator _ => operator.kind.tightness
  | .unary _ _ => Symbol.unary.tightness
  | .call _ _ _ => Symbol.call.tightness
  | .literal _ | .variable _ _ | .group _ => Symbol.primary.tightness

/-- The sides of an operator bind tightly enough to stand there without parentheses: what is on the left may be of the
operator's own level, what is on the right may not. -/
def TightSides (left : Expr) (operator : Token) (right : Expr) : Prop :=
  operator.kind.tightness ≤ left.tightness ∧ operator.kind.tightness < right.tightness

mutual
/-- Operators, names and parentheses are tokens of their kinds, and no operand binds looser than the grammar allows. -/
def Expr.Formed : Expr → Prop
  | .literal _ => True
  | .variable _ name => name.kind = .identifier
  | .assign _ name value => name.kind = .identifier ∧ value.Formed
  | .group inner => inner.Formed
  | .unary operator right =>
    operator.kind ∈ signKinds ∧ Symbol.unary.tightness ≤ right.tightness ∧ right.Formed
  | .binary left operator right =>
    operator.kind ∈ binaryKinds ∧ TightSides left operator right ∧ left.Formed ∧ right.Formed
  | .logical left operator right =>
    operator.kind ∈ logicalKinds ∧ TightSides left operator right ∧ left.Formed ∧ right.Formed
  | .call callee paren arguments =>
    paren.kind = .rightParen ∧ Symbol.call.tightness ≤ callee.tightness ∧ callee.Formed ∧ Expr.FormedAll arguments

def Expr.FormedAll : List Expr → Prop
  | [] => True
  | e :: es => e.Formed ∧ Expr.FormedAll es
end

mutual
/-- Names and keywords are tokens of their kinds, no branch of a condition and no body of a loop is a declaration, and
the expressions are well formed. -/
def Stmt.Formed : Stmt → Prop
  | .block body => Stmt.FormedAll body
  | .expression value => value.Formed
  | .function name params body =>
    name.kind = .identifier ∧ (∀ p ∈ params, p.kind = .identifier) ∧ Stmt.FormedAll body
  | .conditional test yes no => test.Formed ∧ yes.declared? = none ∧ yes.Formed ∧
      match no with
      | none => True
      | some s => s.declared? = none ∧ s.Formed
  | .print value => value.Formed
  | .return keyword value => keyword.kind = .returnWord ∧ ∀ e ∈ value, e.Formed
  | .var name initializer => name.kind = .identifier ∧ ∀ e ∈ initializer, e.Formed
  | .while test body => test.Formed ∧ body.declared? = none ∧ body.Formed

def Stmt.FormedAll : List Stmt → Prop
  | [] => True
  | s :: ss => s.Formed ∧ Stmt.FormedAll ss
end

theorem Stmt.formedAll_iff : ∀ ss : List Stmt, Stmt.FormedAll ss ↔ ∀ s ∈ ss, s.Formed
  | [] => by simp [Stmt.FormedAll]
  | s :: ss => by simp [Stmt.FormedAll, Stmt.formedAll_iff ss]

mutual
/-- A well-formed statement declares only in the lists of its scopes. -/
theorem Stmt.Formed.proper : ∀ {s : Stmt}, s.Formed → s.Proper
  | .block _, h => Stmt.FormedAll.proper h
  | .expression _, _ => trivial
  | .function _ _ _, h => Stmt.FormedAll.proper h.2.2
  | .conditional _ _ none, h => ⟨h.2.1, Stmt.Formed.proper h.2.2.1, trivial⟩
  | .conditional _ _ (some _), h =>
    ⟨h.2.1, Stmt.Formed.proper h.2.2.1, h.2.2.2.1, Stmt.Formed.proper h.2.2.2.2⟩
  | .print _, _ => trivial
  | .return _ _, _ => trivial
  | .var _ _, _ => trivial
  | .while _ _, h => ⟨h.2.1, Stmt.Formed.proper h.2.2⟩

theorem Stmt.FormedAll.proper : ∀ {ss : List Stmt}, Stmt.FormedAll ss → Stmt.ProperAll ss
  | [], _ => trivial
  | _ :: _, h => ⟨Stmt.Formed.proper h.1, Stmt.FormedAll.proper h.2⟩
end

/-! ## Levels -/

theorem tightness_operandOf (level : Parse.Level) : (operandOf level).tightness = level.tightness + 1 := by
  cases level <;> rfl

theorem tightness_of_has {level : Parse.Level} {k : Kind} (h : level.has k = true) :
    k.tightness = level.tightness := by
  cases level <;> cases k <;> first | rfl | cases h

/-- The operators that are joined as those of the level are. -/
def Parse.Level.kinds : Parse.Level → List Kind
  | .or | .and => logicalKinds
  | _ => binaryKinds

theorem mem_kinds_of_has {level : Parse.Level} {k : Kind} (h : level.has k = true) : k ∈ level.kinds := by
  cases level <;> cases k <;> first | decide | cases h

/-- An operator of a level joins two sides to a well-formed expression of that level. -/
theorem formed_join {level : Parse.Level} {left right : Expr} {operator : Token} (h : level.has operator.kind = true)
    (hl : level.tightness ≤ left.tightness) (hr : level.tightness < right.tightness) (hlf : left.Formed)
    (hrf : right.Formed) : (level.join left operator right).Formed ∧
      (level.join left operator right).tightness = level.tightness := by
  have hkind := mem_kinds_of_has h
  have ht := tightness_of_has h
  have htight : TightSides left operator right := ⟨ht ▸ hl, ht ▸ hr⟩
  cases level <;> exact ⟨⟨hkind, htight, hlf, hrf⟩, ht⟩

/-! ## What rules give -/

/-- An expression as a rule gives it: well formed, at least so tight, and its nodes are numbered from `lo` on and below
`hi`. -/
structure Expr.Shaped (tight lo : Nat) (e : Expr) (hi : Nat) : Prop where
  formed : e.Formed
  tight : tight ≤ e.tightness
  numbered : Numbered lo (idsOf e.occurrences) hi

structure Expr.ShapedAll (lo : Nat) (es : List Expr) (hi : Nat) : Prop where
  formed : Expr.FormedAll es
  numbered : Numbered lo (idsOf (Expr.occurrencesAll es)) hi

structure OptionalShaped (lo : Nat) (o : Option Expr) (hi : Nat) : Prop where
  formed : ∀ e ∈ o, e.Formed
  numbered : Numbered lo (idsOf (optionalOccurrences o)) hi

structure Stmt.Shaped (lo : Nat) (s : Stmt) (hi : Nat) : Prop where
  formed : s.Formed
  numbered : Numbered lo (idsOf s.occurrences) hi

structure Stmt.ShapedAll (lo : Nat) (ss : List Stmt) (hi : Nat) : Prop where
  formed : Stmt.FormedAll ss
  numbered : Numbered lo (idsOf (Stmt.occurrencesAll ss)) hi

/-- What may stand first behind `for (`, as the rule gives it. -/
structure StartShaped (lo : Nat) (o : Option Stmt) (hi : Nat) : Prop where
  formed : ∀ s ∈ o, s.Formed
  numbered : Numbered lo (idsOf (Grammar.startOccurrences o)) hi

/-- Parameters as the rule gives them: names, and no number is taken. -/
structure ParamsShaped (lo : Nat) (ps : List Token) (hi : Nat) : Prop where
  names : ∀ p ∈ ps, p.kind = .identifier
  same : hi = lo

/-- A statement that may be a branch: it declares nothing where it stands. -/
structure Stmt.BranchShaped (lo : Nat) (s : Stmt) (hi : Nat) : Prop extends Stmt.Shaped lo s hi where
  undeclared : s.declared? = none

theorem Expr.Shaped.loosen {tight tight' lo hi : Nat} {e : Expr} (h : e.Shaped tight lo hi) (ht : tight' ≤ tight) :
    e.Shaped tight' lo hi := ⟨h.formed, ht.trans h.tight, h.numbered⟩

theorem optionalShaped_none (k : Nat) : OptionalShaped k none k := ⟨by simp, .nil (Nat.le_refl k)⟩

theorem Expr.Shaped.optional {tight lo hi : Nat} {e : Expr} (h : e.Shaped tight lo hi) :
    OptionalShaped lo (some e) hi := by
  refine ⟨fun e' he' => ?_, h.numbered⟩
  obtain rfl := Option.some.inj he'
  exact h.formed

namespace Parse

open Grammar

variable {α β : Type} {k : Nat} {p : Parse α} {f : α → Parse β} {Q : α → Nat → Prop} {R : β → Nat → Prop}

/-- From where the next number is `k`, what the rule gives, if it gives anything, satisfies `Q` with the number that is
next then. -/
def Gives (k : Nat) (p : Parse α) (Q : α → Nat → Prop) : Prop :=
  ∀ c a c', c.fresh = k → p c = (some a, c') → Q a c'.fresh

theorem Gives.imp {Q' : α → Nat → Prop} (h : Gives k p Q) (hq : ∀ a j, Q a j → Q' a j) : Gives k p Q' :=
  fun c a c' hk hc => hq a _ (h c a c' hk hc)

theorem gives_pure {a : α} (h : Q a k) : Gives k (pure a) Q := by
  rintro c a c' rfl hc
  cases hc
  exact h

theorem gives_fail (what : String) : Gives k (fail what) Q := by
  rintro c a c' - hc
  cases hc

/-- **A sequence gives what its last rule gives** from where the first has stopped. -/
theorem Gives.bind (h : Gives k p Q) (hf : ∀ a j, Q a j → Gives j (f a) R) : Gives k (p >>= f) R := by
  intro c b c' hk hc
  rw [bind_def] at hc
  rcases hp : p c with ⟨_ | a, c₁⟩
  · rw [hp] at hc
    cases hc
  · rw [hp] at hc
    exact hf a _ (h c a c₁ hk hp) c₁ b c' rfl hc

theorem Gives.ite {b : Prop} [Decidable b] {q : Parse α} (hp : Gives k p Q) (hq : Gives k q Q) :
    Gives k (if b then p else q) Q := by
  split
  · exact hp
  · exact hq

/-! Steps that take no number. -/

theorem gives_sees_bind {kind : Kind} {f : Bool → Parse β} (h : ∀ b, Gives k (f b) R) :
    Gives k (sees kind >>= f) R := fun c b c' hk hc => h (c.sees kind) c b c' hk hc

theorem gives_atEnd_bind {f : Bool → Parse β} (h : ∀ b, Gives k (f b) R) : Gives k (atEnd >>= f) R :=
  fun c b c' hk hc => h c.rest.isEmpty c b c' hk hc

theorem gives_peek_bind {f : Token → Parse β} (h : ∀ t, Gives k (f t) R) : Gives k (peek >>= f) R :=
  fun c b c' hk hc => h c.peek c b c' hk hc

theorem gives_note_bind {t : Token} {cause : Cause} {f : Unit → Parse β} (h : Gives k (f ()) R) :
    Gives k (note t cause >>= f) R := fun c b c' hk hc => h (c.note t cause) b c' hk hc

theorem gives_fresh_bind {f : Nat → Parse β} (h : Gives (k + 1) (f k) R) : Gives k (fresh >>= f) R := by
  rintro c b c' rfl hc
  exact h { c with fresh := c.fresh + 1 } b c' rfl hc

theorem gives_take?_bind {q : Kind → Bool} {f : Option Token → Parse β}
    (hsome : ∀ t, q t.kind = true → Gives k (f (some t)) R) (hnone : Gives k (f none) R) :
    Gives k (take? q >>= f) R := by
  intro c b c' hk hc
  rw [bind_def] at hc
  unfold take? at hc
  split at hc
  · next a c₁ ht =>
    split at ht
    · next t ts _ =>
      split at ht
      · next hq =>
        cases ht
        exact hsome t hq { c with rest := ts } b c' hk hc
      · cases ht
        exact hnone c b c' hk hc
    · cases ht
      exact hnone c b c' hk hc
  · cases hc

theorem gives_accept_bind {kind : Kind} {f : Bool → Parse β} (h : ∀ b, Gives k (f b) R) :
    Gives k (accept kind >>= f) R := by
  unfold accept
  rw [bind_assoc]
  exact gives_take?_bind (fun _ _ => h true) (h false)

theorem gives_expect_bind {kind : Kind} {what : String} {f : Token → Parse β}
    (h : ∀ t, t.kind = kind → Gives k (f t) R) : Gives k (expect kind what >>= f) R := by
  unfold expect
  rw [bind_assoc]
  refine gives_take?_bind (fun t ht => h t (of_decide_eq_true ht)) ?_
  exact (gives_fail what (Q := fun _ _ => False)).bind fun _ _ => False.elim

/-! Lists with commas: what holds of an item and of a list, from number to number. -/

section

variable {Q : Nat → α → Nat → Prop} {R : Nat → List α → Nat → Prop}

theorem gives_separated {item : Nat → Parse α} (h : ∀ i k, Gives k (item i) (Q k))
    (hone : ∀ {k a j}, Q k a j → R k [a] j) (hcons : ∀ {k a j as l}, Q k a j → R j as l → R k (a :: as) l) :
    ∀ n i k, Gives k (separated item n i) (R k)
  | 0, i, k => (h i k).bind fun _ _ ha => gives_pure (hone ha)
  | n + 1, i, k => (h i k).bind fun _ j ha => gives_accept_bind fun _ =>
      .ite ((gives_separated h hone hcons n (i + 1) j).bind fun _ _ has => gives_pure (hcons ha has))
        (gives_pure (hone ha))

theorem gives_listed {item : Parse α} (h : ∀ k, Gives k item (Q k)) (hnil : ∀ k, R k [] k)
    (hone : ∀ {k a j}, Q k a j → R k [a] j) (hcons : ∀ {k a j as l}, Q k a j → R j as l → R k (a :: as) l)
    (what : String) (n k : Nat) : Gives k (listed item what n) (R k) := by
  refine gives_sees_bind fun _ => .ite (gives_pure (hnil k)) (gives_separated (R := R) (fun i k => ?_) hone hcons n 0 k)
  exact .ite (gives_peek_bind fun _ => gives_note_bind (h k)) (h k)

end

/-! ## Expressions -/

section

variable {e : Parse Expr}

theorem gives_arguments (h : ∀ k, Gives k e (Expr.Shaped 0 k)) (what : String) (n k : Nat) :
    Gives k (listed e what n) (Expr.ShapedAll k) := by
  refine gives_listed h (fun k => ⟨trivial, .nil (Nat.le_refl k)⟩) (fun ha => ?_) (fun ha has => ?_) what n k
  · exact ⟨⟨ha.formed, trivial⟩, by simpa [Expr.occurrencesAll] using ha.numbered⟩
  · exact ⟨⟨ha.formed, has.formed⟩, by simpa [Expr.occurrencesAll] using ha.numbered.append has.numbered⟩

theorem gives_primary (h : ∀ k, Gives k e (Expr.Shaped 0 k)) (k : Nat) :
    Gives k (primary e) (Expr.Shaped Symbol.primary.tightness k) := by
  rw [primary_eq]
  refine gives_take?_bind (fun t _ => ?_) (gives_fail _)
  dsimp only
  unfold primaryFrom
  split
  · exact gives_pure ⟨trivial, le_rfl, .nil (Nat.le_refl k)⟩
  · split
    · next ht => exact gives_fresh_bind (gives_pure ⟨ht, le_rfl, .single k⟩)
    · exact (h k).bind fun inner j hi => gives_expect_bind fun _ _ => gives_pure ⟨hi.formed, le_rfl, hi.numbered⟩

theorem gives_calls (h : ∀ k, Gives k e (Expr.Shaped 0 k)) : ∀ (n : Nat) {callee : Expr} {lo k : Nat},
    callee.Shaped Symbol.call.tightness lo k →
      Gives k (calls e n callee) (Expr.Shaped Symbol.call.tightness lo)
  | 0, _, _, _, hc => gives_pure hc
  | n + 1, callee, lo, k, hc => gives_accept_bind fun _ => .ite
      ((gives_arguments h _ n k).bind fun es j hes => gives_expect_bind fun t ht => gives_calls h n
        ⟨⟨ht, hc.tight, hc.formed, hes.formed⟩, le_rfl, by
          simpa [Expr.occurrences] using hc.numbered.append hes.numbered⟩)
      (gives_pure hc)

theorem gives_unary (h : ∀ k, Gives k e (Expr.Shaped Symbol.call.tightness k)) : ∀ n k,
    Gives k (unary e n) (Expr.Shaped Symbol.unary.tightness k)
  | 0, k => (h k).imp fun _ _ hs => hs.loosen (by decide)
  | n + 1, k => by
    refine gives_take?_bind (fun t ht => ?_) ((h k).imp fun _ _ hs => hs.loosen (by decide))
    have ht : t.kind ∈ signKinds := by simpa [signKinds] using ht
    exact (gives_unary h n k).bind fun _ _ hr => gives_pure ⟨⟨ht, hr.tight, hr.formed⟩, le_rfl, hr.numbered⟩

theorem gives_joined (level : Level) (h : ∀ k, Gives k e (Expr.Shaped (level.tightness + 1) k)) :
    ∀ (n : Nat) {left : Expr} {lo k : Nat}, left.Shaped level.tightness lo k →
      Gives k (joined level e n left) (Expr.Shaped level.tightness lo)
  | 0, _, _, _, hl => gives_pure hl
  | n + 1, left, lo, k, hl => by
    refine gives_take?_bind (fun t ht => (h k).bind fun right j hr => gives_joined level h n ?_) (gives_pure hl)
    obtain ⟨hf, ht'⟩ := formed_join ht hl.tight hr.tight hl.formed hr.formed
    refine ⟨hf, ht'.ge, ?_⟩
    have hn := hl.numbered.append hr.numbered
    cases level <;> simpa [Level.join, Expr.occurrences] using hn

theorem gives_chain (level : Level) (n : Nat) (h : ∀ k, Gives k e (Expr.Shaped (operandOf level).tightness k))
    (k : Nat) : Gives k (chain level n e) (Expr.Shaped level.tightness k) := by
  rw [tightness_operandOf] at h
  exact (h k).bind fun left j hl => gives_joined level h n (hl.loosen (Nat.le_succ _))

theorem gives_operation (n : Nat) (h : ∀ k, Gives k e (Expr.Shaped 0 k)) (k : Nat) :
    Gives k (operation n e) (Expr.Shaped Level.or.tightness k) := by
  have hcall : ∀ k, Gives k (do calls e n (← primary e)) (Expr.Shaped Symbol.call.tightness k) := fun k =>
    (gives_primary h k).bind fun callee j hc => gives_calls h n (hc.loosen (by decide))
  exact gives_chain .or n (gives_chain .and n (gives_chain .equality n (gives_chain .comparison n (gives_chain .term n
    (gives_chain .factor n (gives_unary hcall n)))))) k

/-- An assignment to something else than a name gives its left side alone. -/
theorem gives_assignment (n : Nat) (h : ∀ k, Gives k e (Expr.Shaped 0 k)) (k : Nat) :
    Gives k (assignment n e) (Expr.Shaped 0 k) := by
  rw [assignment_eq]
  refine (gives_operation n h k).bind fun target j ht => ?_
  refine gives_take?_bind (fun equals _ => (h j).bind fun value l hv => ?_) (gives_pure (ht.loosen (Nat.zero_le _)))
  cases target with
  | «variable» i name =>
    refine gives_fresh_bind (gives_pure ⟨⟨ht.formed, hv.formed⟩, Nat.zero_le _, ?_⟩)
    simpa [Expr.occurrences] using (hv.numbered.widen ht.numbered.le).append (.single l)
  | _ => exact gives_note_bind (gives_pure ⟨ht.formed, Nat.zero_le _, ht.numbered.extend hv.numbered.le⟩)

theorem gives_expression : ∀ n k, Gives k (expression n) (Expr.Shaped 0 k)
  | 0, _ => gives_fail _
  | n + 1, k => gives_assignment (n + 1) (gives_expression n) k

end

/-! ## Statements -/

theorem gives_ended (n : Nat) (what : String) (k : Nat) : Gives k (ended n what) (Expr.Shaped 0 k) :=
  (gives_expression n k).bind fun _ _ he => gives_expect_bind fun _ _ => gives_pure he

theorem gives_expressionStatement (n k : Nat) : Gives k (expressionStatement n) (Stmt.BranchShaped k) :=
  (gives_ended n _ k).bind fun _ _ he => gives_pure ⟨⟨he.formed, he.numbered⟩, rfl⟩

theorem gives_printStatement (n k : Nat) : Gives k (printStatement n) (Stmt.BranchShaped k) :=
  (gives_ended n _ k).bind fun _ _ he => gives_pure ⟨⟨he.formed, he.numbered⟩, rfl⟩

theorem gives_optionalUpTo {n : Nat} {kind : Kind} {what : String} {next : Option Expr → Parse β}
    (h : ∀ o j, OptionalShaped k o j → Gives j (next o) R) : Gives k (optionalUpTo n kind what next) R := by
  refine gives_sees_bind fun _ => .ite ?_ ?_
  · exact gives_expect_bind fun _ _ => h none k (optionalShaped_none k)
  · rw [map_def, bind_assoc]
    exact (gives_expression n k).bind fun e j he => gives_expect_bind fun _ _ => h (some e) j he.optional

theorem gives_returnStatement (n : Nat) {keyword : Token} (hk : keyword.kind = .returnWord) (k : Nat) :
    Gives k (returnStatement n keyword) (Stmt.BranchShaped k) := by
  rw [returnStatement_eq]
  exact gives_optionalUpTo fun o j ho => gives_pure ⟨⟨⟨hk, ho.formed⟩, ho.numbered⟩, rfl⟩

theorem gives_varDeclaration (n k : Nat) : Gives k (varDeclaration n) (Stmt.Shaped k) := by
  have h {name : Token} (hn : name.kind = .identifier) {o : Option Expr} {j : Nat} (ho : OptionalShaped k o j) :
      Gives j (expect .semicolon "';' after variable declaration" >>= fun _ => pure (Stmt.var name o))
        (Stmt.Shaped k) := gives_expect_bind fun _ _ => gives_pure ⟨⟨hn, ho.formed⟩, ho.numbered⟩
  refine gives_expect_bind fun name hn => gives_accept_bind fun _ => .ite ?_ (h hn (optionalShaped_none k))
  exact ((gives_expression n k).bind fun e j he => gives_pure he.optional).bind fun o j ho => h hn ho

section

variable {statement : Parse Stmt} {body : Parse (List Stmt)}

theorem gives_ifStatement (n : Nat) (hs : ∀ k, Gives k statement (Stmt.BranchShaped k)) (k : Nat) :
    Gives k (ifStatement n statement) (Stmt.BranchShaped k) := by
  refine gives_expect_bind fun _ _ => (gives_expression n k).bind fun test j ht => gives_expect_bind fun _ _ => ?_
  refine (hs j).bind fun yes l hy => gives_accept_bind fun _ => .ite ?_ ?_
  · refine ((hs l).bind fun no i hn => gives_pure (Q := fun o i => ∃ no, o = some no ∧ no.BranchShaped l i)
      ⟨no, rfl, hn⟩).bind ?_
    rintro _ i ⟨no, rfl, hn⟩
    refine gives_pure ⟨⟨⟨ht.formed, hy.undeclared, hy.formed, hn.undeclared, hn.formed⟩, ?_⟩, rfl⟩
    simpa [Stmt.occurrences] using ht.numbered.append (hy.numbered.append hn.numbered)
  · refine gives_pure (k := l) ⟨⟨⟨ht.formed, hy.undeclared, hy.formed, trivial⟩, ?_⟩, rfl⟩
    simpa [Stmt.occurrences] using ht.numbered.append hy.numbered

theorem gives_whileStatement (n : Nat) (hs : ∀ k, Gives k statement (Stmt.BranchShaped k)) (k : Nat) :
    Gives k (whileStatement n statement) (Stmt.BranchShaped k) := by
  refine gives_expect_bind fun _ _ => (gives_expression n k).bind fun test j ht => gives_expect_bind fun _ _ => ?_
  refine (hs j).bind fun body l hb => gives_pure ⟨⟨⟨ht.formed, hb.undeclared, hb.formed⟩, ?_⟩, rfl⟩
  simpa [Stmt.occurrences] using ht.numbered.append hb.numbered

theorem gives_forInitializer (n k : Nat) : Gives k (forInitializer n) (StartShaped k) := by
  have h {s : Stmt} {j : Nat} (hs : s.Shaped k j) : StartShaped k (some s) j := by
    refine ⟨fun s' hs' => ?_, hs.numbered⟩
    obtain rfl := Option.some.inj hs'
    exact hs.formed
  refine gives_accept_bind fun _ => .ite (gives_pure ⟨by simp, .nil (Nat.le_refl k)⟩) ?_
  refine gives_accept_bind fun _ => .ite ?_ ?_
  · exact (gives_varDeclaration n k).bind fun s j hs => gives_pure (h hs)
  · exact (gives_expressionStatement n k).bind fun s j hs => gives_pure (h hs.toShaped)

theorem formed_ofFor {start : Option Stmt} {test step : Option Expr} {body : Stmt} (hs : ∀ s ∈ start, s.Formed)
    (ht : ∀ e ∈ test, e.Formed) (hp : ∀ e ∈ step, e.Formed) (hb : body.Formed) (hd : body.declared? = none) :
    (Stmt.ofFor start test step body).Formed ∧ (Stmt.ofFor start test step body).declared? = none := by
  have htest : (test.getD (.literal (.bool true))).Formed := by
    cases test with
    | none => trivial
    | some e => exact ht e rfl
  cases start <;> cases step <;> simp_all [Stmt.ofFor, Stmt.Formed, Stmt.FormedAll, Stmt.declared?]

theorem gives_forStatement (n : Nat) (hs : ∀ k, Gives k statement (Stmt.BranchShaped k)) (k : Nat) :
    Gives k (forStatement n statement) (Stmt.BranchShaped k) := by
  rw [forStatement_eq]
  refine gives_expect_bind fun _ _ => (gives_forInitializer n k).bind fun start j hstart => ?_
  refine gives_optionalUpTo fun test l htest => gives_optionalUpTo fun step i hstep => ?_
  refine (hs i).bind fun body m hbody => ?_
  obtain ⟨hf, hd⟩ := formed_ofFor hstart.formed htest.formed hstep.formed hbody.formed hbody.undeclared
  refine gives_pure ⟨⟨hf, ?_⟩, hd⟩
  have hn := ((hstart.numbered.append htest.numbered).append hstep.numbered).append hbody.numbered
  simp only [← idsOf_append] at hn
  exact hn.perm ((occurrences_ofFor _ _ _ _).map _)

theorem gives_block (hb : ∀ k, Gives k body (Stmt.ShapedAll k)) (k : Nat) : Gives k (block body) (Stmt.ShapedAll k) :=
  (hb k).bind fun _ _ hss => gives_expect_bind fun _ _ => gives_pure hss

theorem gives_parameters (n k : Nat) :
    Gives k (listed (expect .identifier "parameter name") "parameters" n) (ParamsShaped k) := by
  have hitem (k : Nat) : Gives k (expect .identifier "parameter name") fun t j => t.kind = .identifier ∧ j = k := by
    rw [← bind_pure (expect _ _)]
    exact gives_expect_bind fun t ht => gives_pure ⟨ht, rfl⟩
  refine gives_listed hitem (fun k => ⟨by simp, rfl⟩) (fun ha => ⟨?_, ha.2⟩) (fun ha has => ⟨?_, ?_⟩) _ n k
  · exact List.forall_mem_singleton.2 ha.1
  · exact List.forall_mem_cons.2 ⟨ha.1, has.names⟩
  · exact has.same.trans ha.2

theorem gives_functionDeclaration (n : Nat) (hb : ∀ k, Gives k body (Stmt.ShapedAll k)) (k : Nat) :
    Gives k (functionDeclaration n body) (Stmt.Shaped k) := by
  rw [functionDeclaration_eq]
  refine gives_expect_bind fun name hname => gives_expect_bind fun _ _ => (gives_parameters n k).bind ?_
  rintro ps _ ⟨hps, rfl⟩
  refine gives_expect_bind fun _ _ => gives_expect_bind fun _ _ => (gives_block hb _).bind fun ss j hss => ?_
  exact gives_pure ⟨⟨hname, hps, hss.formed⟩, hss.numbered⟩

theorem gives_statementWith (n : Nat) (hs : ∀ k, Gives k statement (Stmt.BranchShaped k))
    (hb : ∀ k, Gives k body (Stmt.ShapedAll k)) (k : Nat) :
    Gives k (statementWith n statement body) (Stmt.BranchShaped k) := by
  rw [statementWith_eq]
  refine gives_take?_bind (fun t _ => ?_) (gives_expressionStatement n k)
  dsimp only
  cases hk : t.kind
  case returnWord => exact gives_returnStatement n hk k
  case forWord => exact gives_forStatement n hs k
  case ifWord => exact gives_ifStatement n hs k
  case printWord => exact gives_printStatement n k
  case whileWord => exact gives_whileStatement n hs k
  all_goals exact (gives_block hb k).bind fun ss j hss => gives_pure ⟨⟨hss.formed, hss.numbered⟩, rfl⟩

theorem gives_declared (n : Nat) (hs : ∀ k, Gives k statement (Stmt.BranchShaped k))
    (hb : ∀ k, Gives k body (Stmt.ShapedAll k)) (k : Nat) :
    Gives k (declared n statement body) (Stmt.Shaped k) :=
  gives_accept_bind fun _ => .ite (gives_functionDeclaration n hb k) <| gives_accept_bind fun _ =>
    .ite (gives_varDeclaration n k) ((hs k).imp fun _ _ h => h.toShaped)

end

/-- What a declaration gives, or where the numbers stand when it was given up. -/
def RecoveredShaped (lo : Nat) : Option Stmt → Nat → Prop
  | some s, hi => s.Shaped lo hi
  | none, hi => lo ≤ hi

theorem gives_recovering {p : Parse Stmt} (hg : Grows p) (h : ∀ k, Gives k p (Stmt.Shaped k)) (k : Nat) :
    Gives k (recovering p) (RecoveredShaped k) := by
  rintro c o c' rfl hc
  have hle := hg.numbers c
  unfold recovering at hc
  rcases hp : p c with ⟨_ | s, c₁⟩
  · rw [hp] at hc hle
    cases hc
    exact hle
  · rw [hp] at hc
    cases hc
    exact h _ c s _ rfl hp

theorem gives_declarations (close : Kind) {one : Parse (Option Stmt)} (h : ∀ k, Gives k one (RecoveredShaped k)) :
    ∀ n k, Gives k (declarations close one n) (Stmt.ShapedAll k)
  | 0, k => gives_pure ⟨trivial, .nil (Nat.le_refl k)⟩
  | n + 1, k => by
    have hnil : Gives k (pure []) (Stmt.ShapedAll k) := gives_pure ⟨trivial, .nil (Nat.le_refl k)⟩
    rw [declarations_succ]
    refine gives_sees_bind fun _ => .ite hnil (gives_atEnd_bind fun _ => .ite hnil ?_)
    refine (h k).bind fun o j ho => (gives_declarations close h n j).bind fun ss l hss => gives_pure ?_
    cases o with
    | none => exact ⟨hss.formed, hss.numbered.widen ho⟩
    | some s =>
      have ho : s.Shaped k j := ho
      exact ⟨⟨ho.formed, hss.formed⟩, by simpa [Stmt.occurrencesAll] using ho.numbered.append hss.numbered⟩

theorem gives_statement_and_body : ∀ n, (∀ k, Gives k (statement n) (Stmt.BranchShaped k)) ∧
    ∀ k, Gives k (body n) (Stmt.ShapedAll k)
  | 0 => ⟨gives_expressionStatement 0, fun k => gives_pure ⟨trivial, .nil (Nat.le_refl k)⟩⟩
  | n + 1 => by
    obtain ⟨hs, hb⟩ := gives_statement_and_body n
    obtain ⟨hgs, hgb⟩ := grows_statement_and_body n
    have hw := gives_statementWith (n + 1) hs hb
    have hgw := grows_statementWith (n + 1) hgs hgb
    refine ⟨hw, ?_⟩
    rw [body_succ]
    exact gives_declarations _ (gives_recovering (grows_declared (n + 1) hgw hgb) (gives_declared (n + 1) hw hb))
      (n + 1)

theorem gives_program (n k : Nat) : Gives k (program n) (Stmt.ShapedAll k) := by
  obtain ⟨hs, hb⟩ := gives_statement_and_body n
  obtain ⟨hgs, hgb⟩ := grows_statement_and_body n
  exact gives_declarations _ (gives_recovering (grows_declared n hgs hgb) (gives_declared n hs hb)) n k

end Parse

/-- **What is read is well formed and its nodes have different numbers**, whatever the tokens. -/
theorem parse_shaped (fresh : Nat) (tokens : List Token) :
    Stmt.ShapedAll fresh (parse fresh tokens).statements (parse fresh tokens).fresh := by
  rw [parse_eq]
  rcases hp : Parse.program (parsedTokens tokens).length (startOf fresh tokens) with ⟨_ | ss, c'⟩
  · have hle := (Parse.grows_program (parsedTokens tokens).length).numbers (startOf fresh tokens)
    rw [hp] at hle
    exact ⟨trivial, .nil hle⟩
  · exact Parse.gives_program _ fresh _ ss c' rfl hp

theorem fresh_le_parse (fresh : Nat) (tokens : List Token) : fresh ≤ (parse fresh tokens).fresh :=
  (parse_shaped fresh tokens).numbered.le

end Scriptlet
