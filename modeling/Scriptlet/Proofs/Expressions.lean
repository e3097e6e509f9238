import Mathlib
import Scriptlet.Proofs.Clean

/-!
# Reading expressions

Every rule for expressions reads its part of the grammar (`reads_expression`).  The choices of the rules are greedy: a
rule goes on as long as the next token lets it.  So a derivation is found only where the token behind it is not one the
rule would go on with (`Stops`), and every derivation inside a longer one stands at such a place.
-/
namespace Scriptlet

namespace Grammar

open Parse (Level Without)

theorem Word.kind_eq {kind : Kind} (w : Word kind) : w.1.kind = kind := of_decide_eq_true w.2

/-- The levels of an operand of this level, this one first. -/
def levelsFrom : Level → List Level
  | .or => [.or, .and, .equality, .comparison, .term, .factor]
  | .and => [.and, .equality, .comparison, .term, .factor]
  | .equality => [.equality, .comparison, .term, .factor]
  | .comparison => [.comparison, .term, .factor]
  | .term => [.term, .factor]
  | .factor => [.factor]

/-- Whether a token of the kind behind an expression of the symbol belongs to it. -/
def Symbol.goesOn : Symbol → Kind → Bool
  | .assignment, k => k = .equal || k = .leftParen || (levelsFrom .or).any (·.has k)
  | .level l, k => k = .leftParen || (levelsFrom l).any (·.has k)
  | .unary, k => k = .leftParen
  | .call, k => k = .leftParen
  | .primary, _ => false

/-- No token that belongs to the expression comes next. -/
def Symbol.Stops (s : Symbol) (ts : List Token) : Prop := Without s.goesOn ts

theorem goesOn_level (l : Level) (k : Kind) :
    (Symbol.level l).goesOn k = (l.has k || (operandOf l).goesOn k) := by
  cases l <;> simp only [Symbol.goesOn, levelsFrom, operandOf, List.any_cons, List.any_nil, Bool.or_false] <;> grind

theorem goesOn_operandOf_of_has {l : Level} {k : Kind} (h : l.has k = true) : (operandOf l).goesOn k = false := by
  cases l <;> cases k <;> first | rfl | cases h

/-! ## How an expression begins -/

/-- The kinds that an expression can begin with. -/
def begins (k : Kind) : Bool := Parse.beginsPrimary k || isSign k

theorem begins_of_literal {k : Kind} {v : Literal} (h : literalOf? k = some v) : begins k = true := by
  cases k <;> first | rfl | cases h

theorem Phrase.exists_head : ∀ {s : Symbol} (d : Phrase s), ∃ t ts, d.yield = t :: ts ∧ begins t.kind = true
  | _, .assign name equal value => by
    refine ⟨name.1, _, rfl, ?_⟩
    rw [name.kind_eq]
    rfl
  | _, .operation value => value.exists_head
  | _, .chain first rest => by
    obtain ⟨t, ts, h, hb⟩ := first.exists_head
    exact ⟨t, ts ++ rest.yield, by simp [Phrase.yield, h], hb⟩
  | _, .signed sign right => ⟨sign.1, _, rfl, by simp [begins, sign.2]⟩
  | _, .unsigned value => value.exists_head
  | _, .call callee lists => by
    obtain ⟨t, ts, h, hb⟩ := callee.exists_head
    exact ⟨t, ts ++ lists.yield, by simp [Phrase.yield, h], hb⟩
  | _, .literal token _ h => ⟨token, [], rfl, begins_of_literal h⟩
  | _, .named token => by
    refine ⟨token.1, [], rfl, ?_⟩
    rw [token.kind_eq]
    rfl
  | _, .group opening inner closing => by
    refine ⟨opening.1, _, rfl, ?_⟩
    rw [opening.kind_eq]
    rfl

theorem Arguments.exists_head (d : Arguments) : ∃ t ts, d.yield = t :: ts ∧ begins t.kind = true := by
  cases d with
  | last value => exact value.exists_head
  | more value comma rest =>
    obtain ⟨t, ts, h, hb⟩ := value.exists_head
    exact ⟨t, ts ++ comma.1 :: rest.yield, by simp [Arguments.yield, h], hb⟩

/-- What begins with a token of one sort does not begin with one of another sort. -/
theorem without_of_head {p q : Kind → Bool} {u : List Token} (h : ∃ t ts, u = t :: ts ∧ q t.kind = true)
    (hp : ∀ k, q k = true → p k = false) (r : List Token) : Without p (u ++ r) := by
  obtain ⟨t, ts, rfl, hb⟩ := h
  rw [List.cons_append, Parse.without_cons]
  exact hp _ hb

theorem ne_nil_of_head {q : Kind → Bool} {u : List Token} (h : ∃ t ts, u = t :: ts ∧ q t.kind = true)
    (r : List Token) : u ++ r ≠ [] := by
  obtain ⟨t, ts, rfl, -⟩ := h
  simp

end Grammar

namespace Parse

open Grammar

/-! ## Faults are only added -/

theorem grows_separated {α : Type} {item : Nat → Parse α} (h : ∀ i, Grows (item i)) :
    ∀ n i, Grows (separated item n i)
  | 0, i => (h i).bind fun _ => grows_pure _
  | n + 1, i => (h i).bind fun _ => (grows_accept _).bind fun _ =>
      .ite _ ((grows_separated h n (i + 1)).bind fun _ => grows_pure _) (grows_pure _)

/-- An item of a list that is told how many stand before it. -/
def counted {α : Type} (item : Parse α) (what : String) (i : Nat) : Parse α := do
  if maxArity ≤ i then note (← peek) (.tooMany what)
  item

theorem grows_counted {α : Type} {item : Parse α} (h : Grows item) (what : String) (i : Nat) :
    Grows (counted item what i) :=
  .ite _ (grows_peek.bind fun _ => (grows_note _ _).bind fun _ => h) h

theorem listed_eq {α : Type} (item : Parse α) (what : String) (n : Nat) :
    listed item what n = sees .rightParen >>= fun b => if b then pure [] else separated (counted item what) n 0 := rfl

theorem grows_listed {α : Type} {item : Parse α} (h : Grows item) (what : String) (n : Nat) :
    Grows (listed item what n) :=
  (grows_sees _).bind fun _ => .ite _ (grows_pure _) (grows_separated (grows_counted h what) n 0)

theorem grows_primary {e : Parse Expr} (h : Grows e) : Grows (primary e) := by
  refine (grows_take? _).bind fun t => ?_
  cases t with
  | none => exact grows_fail _
  | some t =>
    dsimp only
    split
    all_goals first
      | exact grows_pure _
      | exact grows_fresh.bind fun _ => grows_pure _
      | exact h.bind fun _ => (grows_expect _ _).bind fun _ => grows_pure _

theorem grows_calls {e : Parse Expr} (h : Grows e) : ∀ n callee, Grows (calls e n callee)
  | 0, _ => grows_pure _
  | n + 1, _ => (grows_accept _).bind fun _ =>
      .ite _ ((grows_listed h _ n).bind fun _ => (grows_expect _ _).bind fun _ => grows_calls h n _) (grows_pure _)

theorem grows_unary {operand : Parse Expr} (h : Grows operand) : ∀ n, Grows (unary operand n)
  | 0 => h
  | n + 1 => by
    refine (grows_take? _).bind fun t => ?_
    cases t with
    | none => exact h
    | some t => exact (grows_unary h n).bind fun _ => grows_pure _

theorem grows_joined {operand : Parse Expr} (level : Level) (h : Grows operand) :
    ∀ n left, Grows (joined level operand n left)
  | 0, _ => grows_pure _
  | n + 1, _ => by
    refine (grows_take? _).bind fun t => ?_
    cases t with
    | none => exact grows_pure _
    | some t => exact h.bind fun _ => grows_joined level h n _

theorem grows_chain {operand : Parse Expr} (level : Level) (n : Nat) (h : Grows operand) :
    Grows (chain level n operand) := h.bind fun _ => grows_joined level h n _

theorem grows_operation {e : Parse Expr} (n : Nat) (h : Grows e) : Grows (operation n e) :=
  grows_chain _ n <| grows_chain _ n <| grows_chain _ n <| grows_chain _ n <| grows_chain _ n <| grows_chain _ n <|
    grows_unary ((grows_primary h).bind fun _ => grows_calls h n _) n

theorem grows_assignment {e : Parse Expr} (n : Nat) (h : Grows e) : Grows (assignment n e) := by
  refine (grows_operation n h).bind fun target => (grows_take? _).bind fun t => ?_
  cases t with
  | none => exact grows_pure _
  | some t =>
    refine h.bind fun value => ?_
    cases target
    all_goals first
      | exact grows_fresh.bind fun _ => grows_pure _
      | exact (grows_note _ _).bind fun _ => grows_pure _

theorem grows_expression : ∀ n, Grows (expression n)
  | 0 => grows_fail _
  | n + 1 => grows_assignment (n + 1) (grows_expression n)

/-! ## What the rules read -/

/-- The expressions of a symbol. -/
def phrase (s : Symbol) : Language Expr where
  Derivation := Phrase s
  yield := Phrase.yield
  build := Phrase.build
  Suits d r := d.Limited ∧ s.Stops r

/-- What may follow a left side.  Where nothing does, the operand before it has stopped here. -/
def tail (level : Level) (left : Expr) : Language Expr where
  Derivation := Tail level
  yield := Tail.yield
  build d := d.build left
  Suits d r := d.Limited ∧ Without level.has r ∧ ((operandOf level).Stops (d.yield ++ r) → (operandOf level).Stops r)

/-- What may follow a callee. -/
def lists (callee : Expr) : Language Expr where
  Derivation := Lists
  yield := Lists.yield
  build d := d.build callee
  Suits d r := d.Limited ∧ Symbol.call.Stops r

/-- The arguments of a list of which `i` stand before. -/
def arguments (i : Nat) : Language (List Expr) where
  Derivation := Arguments
  yield := Arguments.yield
  build := Arguments.build
  Suits d r := i + d.length ≤ maxArity ∧ d.Limited ∧ Symbol.assignment.Stops r ∧ Without (· = .comma) r

theorem stops_level {level : Level} {r : List Token} :
    (Symbol.level level).Stops r ↔ Without level.has r ∧ (operandOf level).Stops r := by
  simp only [Symbol.Stops, Without, goesOn_level, Bool.or_eq_false_iff]
  exact ⟨fun h => ⟨fun t ht => (h t ht).1, fun t ht => (h t ht).2⟩, fun h t ht => ⟨h.1 t ht, h.2 t ht⟩⟩

theorem operand_stops_more {level : Level} (t : OneOf level.has) (ts : List Token) :
    (operandOf level).Stops (t.1 :: ts) := without_cons.2 (goesOn_operandOf_of_has t.2)

/-- On an empty rest only the empty derivation is left, and the rule stands still. -/
theorem moved_of_nil {c : Cursor} {r : List Token} (h : c.rest = [] ++ r) : c.moved r c.fresh = c := by
  rw [List.nil_append] at h
  rw [← h, Cursor.moved_self]

theorem join_eq (level : Level) (left : Expr) (operator : Token) (right : Expr) :
    level.join left operator right = operationOf level left operator right := by
  cases level <;> rfl

theorem reads_joined {level : Level} {operand : Parse Expr} {n : Nat} (hg : Grows operand)
    (h : Reads operand (phrase (operandOf level)) n) :
    ∀ m ≤ n, ∀ left, Reads (joined level operand m left) (tail level left) m := by
  intro m
  induction m with
  | zero =>
    intro _ left c a c' hc
    have hr : c.rest = [] := List.length_eq_zero_iff.1 (Nat.le_zero.1 hc)
    simp only [joined, clean_pure]
    constructor
    · rintro ⟨rfl, rfl⟩
      exact ⟨.done, [], hr, ⟨trivial, without_nil _, id⟩, rfl, (moved_of_nil hr).symm⟩
    · rintro ⟨d, r, hd, -, rfl, rfl⟩
      cases d with
      | done => exact ⟨rfl, moved_of_nil hd⟩
      | more operator right rest =>
        rw [hr] at hd
        cases hd
  | succ m ih =>
    intro hm left c a c' hc
    simp only [joined, join_eq]
    rw [clean_take?_bind]
    constructor
    · rintro (⟨t, ts, ht, h'⟩ | ⟨hw, h'⟩)
      · have hts : ts.length ≤ m := by simpa [ht] using hc
        obtain ⟨d₁, r₁, hr₁, hf₁, h'⟩ :=
          (h.bind_iff hg (fun _ => grows_joined level hg m _) (Nat.le_trans hts (by omega))).1 h'
        have hts₁ : ts = d₁.yield ++ r₁ := hr₁
        have hlen : r₁.length ≤ m := by simp [hts₁] at hts; omega
        obtain ⟨d₂, r₂, hr₂, hf₂, rfl, rfl⟩ := (ih (by omega) _).derivation (by exact hlen) h'
        have hr₂ : r₁ = d₂.yield ++ r₂ := hr₂
        refine ⟨.more t d₁ d₂, r₂, ?_, ⟨⟨hf₁.1, hf₂.1⟩, hf₂.2.1, fun _ => hf₂.2.2 (hr₂ ▸ hf₁.2)⟩, rfl, rfl⟩
        rw [ht, hts₁, hr₂]
        simp [tail, Tail.yield]
      · obtain ⟨rfl, rfl⟩ := clean_pure.1 h'
        exact ⟨.done, c'.rest, rfl, ⟨trivial, hw, id⟩, rfl, rfl⟩
    · rintro ⟨d, r, hd, ⟨hl, hw, hs⟩, rfl, rfl⟩
      cases d with
      | done => exact .inr ⟨by rw [show c.rest = r from hd]; exact hw, clean_pure.2 ⟨rfl, moved_of_nil hd⟩⟩
      | more operator right rest =>
        have hd : c.rest = operator.1 :: (right.yield ++ (rest.yield ++ r)) := by
          rw [hd]
          simp [tail, Tail.yield]
        have hlen : (right.yield ++ (rest.yield ++ r)).length ≤ m := by simpa [hd] using hc
        have hr : (operandOf level).Stops r := hs (operand_stops_more operator _)
        have hrest : (operandOf level).Stops (rest.yield ++ r) := by
          cases rest with
          | done => exact hr
          | more next _ _ => exact operand_stops_more next _
        refine .inl ⟨operator, _, hd, ?_⟩
        refine (h.bind_iff hg (fun _ => grows_joined level hg m _) (Nat.le_trans hlen (by omega))).2 ?_
        refine ⟨right, rest.yield ++ r, rfl, ⟨hl.1, hrest⟩, ?_⟩
        exact (ih (by omega) _).clean (d := rest) (by simp at hlen; simp; omega) rfl ⟨hl.2, hw, fun _ => hr⟩

theorem reads_chain {level : Level} {operand : Parse Expr} {n : Nat} (hg : Grows operand)
    (h : Reads operand (phrase (operandOf level)) n) : Reads (chain level n operand) (phrase (.level level)) n := by
  intro c a c' hc
  rw [chain, h.bind_iff hg (fun _ => grows_joined level hg n _) hc]
  constructor
  · rintro ⟨d₁, r₁, hr₁, hf₁, h'⟩
    have hr₁ : c.rest = d₁.yield ++ r₁ := hr₁
    have hlen : r₁.length ≤ n := by simp [hr₁] at hc; omega
    obtain ⟨d₂, r₂, hr₂, hf₂, rfl, rfl⟩ := (reads_joined hg h n (Nat.le_refl n) _).derivation (by exact hlen) h'
    have hr₂ : r₁ = d₂.yield ++ r₂ := hr₂
    refine ⟨.chain d₁ d₂, r₂, ?_, ⟨⟨hf₁.1, hf₂.1⟩, stops_level.2 ⟨hf₂.2.1, ?_⟩⟩, rfl, rfl⟩
    · rw [hr₁, hr₂]
      simp [phrase, Phrase.yield]
    · exact hf₂.2.2 (hr₂ ▸ hf₁.2)
  · rintro ⟨d, r, hd, ⟨hl, hs⟩, rfl, rfl⟩
    cases d with
    | chain first rest =>
      obtain ⟨hw, hr⟩ := stops_level.1 hs
      have hd : c.rest = first.yield ++ (rest.yield ++ r) := by
        rw [hd]
        simp [phrase, Phrase.yield]
      have hlen : (rest.yield ++ r).length ≤ n := by simp [hd] at hc; simp; omega
      have hrest : (operandOf level).Stops (rest.yield ++ r) := by
        cases rest with
        | done => exact hr
        | more next _ _ => exact operand_stops_more next _
      refine ⟨first, rest.yield ++ r, hd, ⟨hl.1, hrest⟩, ?_⟩
      exact (reads_joined hg h n (Nat.le_refl n) _).clean (d := rest) (by exact hlen) rfl ⟨hl.2, hw, fun _ => hr⟩

theorem clean_counted {α : Type} {item : Parse α} (hg : Grows item) {what : String} {i : Nat} {c c' : Cursor} {a : α} :
    Clean (counted item what i) c a c' ↔ i < maxArity ∧ Clean item c a c' := by
  unfold counted
  by_cases hi : maxArity ≤ i
  · simp only [hi, if_true]
    constructor
    · intro h
      obtain ⟨t, c₁, -, h⟩ := (clean_bind grows_peek fun _ => (grows_note _ _).bind fun _ => hg).1 h
      obtain ⟨u, c₂, h, -⟩ := (clean_bind (grows_note _ _) fun _ => hg).1 h
      exact absurd h not_clean_note
    · intro h
      omega
  · simp only [hi, if_false]
    exact ⟨fun h => ⟨by omega, h⟩, fun h => h.2⟩

theorem assignment_stops_comma (t : Word .comma) (ts : List Token) : Symbol.assignment.Stops (t.1 :: ts) := by
  refine without_cons.2 ?_
  rw [t.kind_eq]
  rfl

theorem assignment_stops_rightParen (t : Word .rightParen) (ts : List Token) :
    Symbol.assignment.Stops (t.1 :: ts) := by
  refine without_cons.2 ?_
  rw [t.kind_eq]
  rfl

/-- A list is its first item and, behind a comma, the list of the others. -/
theorem clean_separated {α : Type} {item : Parse α} (hg : Grows item) {what : String} {n i : Nat} {c c' : Cursor}
    {xs : List α} : Clean (separated (counted item what) (n + 1) i) c xs c' ↔
      i < maxArity ∧ ∃ x c₁, Clean item c x c₁ ∧
        ((∃ (t : Word .comma) (ts : List Token) (ys : List α), c₁.rest = t.1 :: ts ∧ xs = x :: ys ∧
            Clean (separated (counted item what) n (i + 1)) (c₁.moved ts c₁.fresh) ys c') ∨
          (Without (· = .comma) c₁.rest ∧ xs = [x] ∧ c' = c₁)) := by
  have hgs := grows_separated (grows_counted hg what) n (i + 1)
  have hgm : ∀ x : α, Grows (accept .comma >>= fun b =>
      if b = true then separated (counted item what) n (i + 1) >>= fun xs => pure (x :: xs) else pure [x]) :=
    fun x => (grows_accept _).bind fun _ => .ite _ (hgs.bind fun _ => grows_pure _) (grows_pure _)
  rw [separated, clean_bind (grows_counted hg what i) hgm]
  simp only [clean_counted hg, clean_accept_bind, if_true, Bool.false_eq_true, if_false,
    clean_bind hgs fun _ => grows_pure _, clean_pure]
  constructor
  · rintro ⟨x, c₁, ⟨hi, h₁⟩, ⟨t, ts, ht, ys, c₂, h₂, rfl, rfl⟩ | ⟨hw, rfl, rfl⟩⟩
    · exact ⟨hi, x, c₁, h₁, .inl ⟨t, ts, ys, ht, rfl, h₂⟩⟩
    · exact ⟨hi, x, c', h₁, .inr ⟨hw, rfl, rfl⟩⟩
  · rintro ⟨hi, x, c₁, h₁, ⟨t, ts, ys, ht, rfl, h₂⟩ | ⟨hw, rfl, rfl⟩⟩
    · exact ⟨x, c₁, ⟨hi, h₁⟩, .inl ⟨t, ts, ht, ys, c', h₂, rfl, rfl⟩⟩
    · exact ⟨x, c', ⟨hi, h₁⟩, .inr ⟨hw, rfl, rfl⟩⟩

theorem not_clean_separated_nil {α : Type} {item : Parse α} (hg : Grows item) {what : String} {i : Nat} {c c' : Cursor}
    {xs : List α} (h : ∀ x c₁, ¬ Clean item c x c₁) : ¬ Clean (separated (counted item what) 0 i) c xs c' := by
  rw [separated, clean_bind (grows_counted hg what i) fun _ => grows_pure _]
  rintro ⟨x, c₁, h₁, -⟩
  exact h x c₁ ((clean_counted hg).1 h₁).2

theorem reads_arguments {e : Parse Expr} {n : Nat} (hg : Grows e) (h : Reads e (phrase .assignment) n) :
    ∀ m ≤ n, ∀ i, Reads (separated (counted e "arguments") m i) (arguments i) m := by
  intro m
  induction m with
  | zero =>
    intro _ i c a c' hc
    have hr : c.rest = [] := List.length_eq_zero_iff.1 (Nat.le_zero.1 hc)
    constructor
    · intro h'
      refine absurd h' (not_clean_separated_nil hg fun x c₁ h₁ => ?_)
      obtain ⟨d, r, hd, -⟩ := h.derivation (by omega) h₁
      exact ne_nil_of_head d.exists_head r (hd.symm.trans hr)
    · rintro ⟨d, r, hd, -⟩
      exact absurd (hd.symm.trans hr) (ne_nil_of_head d.exists_head r)
  | succ m ih =>
    intro hm i c a c' hc
    rw [clean_separated hg]
    constructor
    · rintro ⟨hi, x, c₁, h₁, h₂⟩
      obtain ⟨d₁, r₁, hr₁, hf₁, rfl, rfl⟩ := h.derivation (by omega) h₁
      have hr₁ : c.rest = d₁.yield ++ r₁ := hr₁
      rcases h₂ with ⟨t, ts, ys, ht, rfl, h₂⟩ | ⟨hw, rfl, rfl⟩
      · have ht : r₁ = t.1 :: ts := ht
        have hlen : ts.length ≤ m := by simp [hr₁, ht] at hc; omega
        obtain ⟨d₂, r₂, hr₂, hf₂, rfl, rfl⟩ := (ih (by omega) (i + 1)).derivation hlen h₂
        have hr₂ : ts = d₂.yield ++ r₂ := hr₂
        refine ⟨.more d₁ t d₂, r₂, ?_, ⟨?_, ⟨hf₁.1, hf₂.2.1⟩, hf₂.2.2⟩, rfl, rfl⟩
        · rw [hr₁, ht, hr₂]
          simp [arguments, Arguments.yield]
        · have := hf₂.1
          simp only [Arguments.length]
          omega
      · exact ⟨.last d₁, r₁, hr₁, ⟨hi, hf₁.1, hf₁.2, hw⟩, rfl, rfl⟩
    · rintro ⟨d, r, hd, ⟨hi, hl, hs, hw⟩, rfl, rfl⟩
      cases d with
      | last value =>
        exact ⟨hi, _, _, h.clean (d := value) (by omega) hd ⟨hl, hs⟩, .inr ⟨hw, rfl, rfl⟩⟩
      | more value comma rest =>
        have hd : c.rest = value.yield ++ comma.1 :: (rest.yield ++ r) := by
          rw [hd]
          simp [arguments, Arguments.yield]
        have hlen : (rest.yield ++ r).length ≤ m := by simp [hd] at hc; simp; omega
        simp only [Arguments.length] at hi
        refine ⟨by omega, _, _, h.clean (d := value) (by omega) hd ⟨hl.1, assignment_stops_comma comma _⟩, ?_⟩
        refine .inl ⟨comma, _, _, rfl, rfl, ?_⟩
        exact (ih (by omega) (i + 1)).clean (d := rest) hlen rfl ⟨by omega, hl.2, hs, hw⟩

/-- The rule for a primary expression behind its first token. -/
def primaryFrom (e : Parse Expr) (t : Token) : Parse Expr :=
  match literalOf? t.kind with
  | some v => pure (.literal v)
  | none =>
    if t.kind = .identifier then fresh >>= fun k => pure (.variable k t)
    else e >>= fun inner => expect .rightParen "')' after expression" >>= fun _ => pure (.group inner)

theorem primary_eq (e : Parse Expr) : primary e = take? beginsPrimary >>= fun o =>
    match o with
    | none => fail "expression"
    | some t => primaryFrom e t := by
  unfold primary
  congr 1
  funext o
  cases o with
  | none => rfl
  | some t =>
    obtain ⟨kind, lexeme, line⟩ := t
    cases kind <;> rfl

theorem kind_of_beginsPrimary {k : Kind} (h : beginsPrimary k = true) (hl : literalOf? k = none)
    (hi : k ≠ .identifier) : k = .leftParen := by
  cases k <;> simp_all [beginsPrimary, literalOf?]

theorem beginsPrimary_of_literal {k : Kind} {v : Literal} (h : literalOf? k = some v) : beginsPrimary k = true := by
  cases k <;> first | rfl | cases h

theorem reads_primary {e : Parse Expr} {n : Nat} (hg : Grows e) (h : Reads e (phrase .assignment) n) :
    Reads (primary e) (phrase .primary) (n + 1) := by
  have hge : ∀ x : Expr, Grows (expect .rightParen "')' after expression" >>= fun _ => pure (Expr.group x)) :=
    fun _ => (grows_expect _ _).bind fun _ => grows_pure _
  intro c a c' hc
  rw [primary_eq, clean_take?_bind]
  constructor
  · rintro (⟨t, ts, ht, h'⟩ | ⟨-, h'⟩)
    · have hlen : ts.length ≤ n := by simpa [ht] using hc
      dsimp only [primaryFrom] at h'
      split at h'
      · rename_i v hv
        obtain ⟨rfl, rfl⟩ := clean_pure.1 h'
        exact ⟨.literal t.1 v hv, ts, ht, ⟨trivial, fun _ _ => rfl⟩, rfl, rfl⟩
      · rename_i hv
        split at h'
        · rename_i hi
          rw [clean_fresh_bind] at h'
          obtain ⟨rfl, rfl⟩ := clean_pure.1 h'
          exact ⟨.named ⟨t.1, decide_eq_true hi⟩, ts, ht, ⟨trivial, fun _ _ => rfl⟩, rfl, rfl⟩
        · rename_i hi
          have hk := kind_of_beginsPrimary t.2 hv hi
          obtain ⟨d, r, hr, hf, h'⟩ := (h.bind_iff hg hge hlen).1 h'
          have hr : ts = d.yield ++ r := hr
          obtain ⟨w, us, hw, h'⟩ := clean_expect_bind.1 h'
          obtain ⟨rfl, rfl⟩ := clean_pure.1 h'
          have hw : r = w.1 :: us := hw
          refine ⟨.group ⟨t.1, decide_eq_true hk⟩ d w, us, ?_, ⟨hf.1, fun _ _ => rfl⟩, rfl, rfl⟩
          rw [ht, hr, hw]
          simp [phrase, Phrase.yield]
    · exact absurd h' not_clean_fail
  · rintro ⟨d, r, hd, ⟨hl, -⟩, rfl, rfl⟩
    refine .inl ?_
    cases d with
    | literal token v hv =>
      refine ⟨⟨token, beginsPrimary_of_literal hv⟩, r, hd, ?_⟩
      dsimp only [primaryFrom]
      rw [hv]
      exact clean_pure.2 ⟨rfl, rfl⟩
    | named token =>
      refine ⟨⟨token.1, by rw [token.kind_eq]; rfl⟩, r, hd, ?_⟩
      dsimp only [primaryFrom]
      rw [show literalOf? token.1.kind = none by rw [token.kind_eq]; rfl]
      dsimp only
      rw [if_pos token.kind_eq]
      exact clean_fresh_bind.2 (clean_pure.2 ⟨rfl, rfl⟩)
    | group opening inner closing =>
      have hd : c.rest = opening.1 :: (inner.yield ++ closing.1 :: r) := by
        rw [hd]
        simp [phrase, Phrase.yield]
      have hlen : (inner.yield ++ closing.1 :: r).length ≤ n := by simpa [hd] using hc
      refine ⟨⟨opening.1, by rw [opening.kind_eq]; rfl⟩, _, hd, ?_⟩
      dsimp only [primaryFrom]
      rw [show literalOf? opening.1.kind = none by rw [opening.kind_eq]; rfl]
      dsimp only
      rw [if_neg (by rw [opening.kind_eq]; simp)]
      refine (h.bind_iff hg hge hlen).2 ⟨inner, closing.1 :: r, rfl, ⟨hl, assignment_stops_rightParen closing r⟩, ?_⟩
      exact clean_expect_bind.2 ⟨closing, r, rfl, clean_pure.2 ⟨rfl, rfl⟩⟩

theorem begins_ne_rightParen (k : Kind) (h : begins k = true) : decide (k = .rightParen) = false := by
  cases k <;> first | rfl | cases h

theorem without_iff_not_sees {kind : Kind} {c : Cursor} : Without (· = kind) c.rest ↔ c.sees kind = false := by
  unfold Without Cursor.sees
  cases c.rest.head? <;> simp

theorem reads_calls {e : Parse Expr} {n : Nat} (hg : Grows e) (h : Reads e (phrase .assignment) n) :
    ∀ m ≤ n + 1, ∀ callee, Reads (calls e m callee) (lists callee) m := by
  intro m
  induction m with
  | zero =>
    intro _ callee c a c' hc
    have hr : c.rest = [] := List.length_eq_zero_iff.1 (Nat.le_zero.1 hc)
    simp only [calls, clean_pure]
    constructor
    · rintro ⟨rfl, rfl⟩
      exact ⟨.done, [], hr, ⟨trivial, without_nil _⟩, rfl, (moved_of_nil hr).symm⟩
    · rintro ⟨d, r, hd, -, rfl, rfl⟩
      cases d with
      | done => exact ⟨rfl, moved_of_nil hd⟩
      | empty opening closing rest =>
        rw [hr] at hd
        cases hd
      | filled opening args closing rest =>
        rw [hr] at hd
        cases hd
  | succ m ih =>
    intro hm callee c a c' hc
    have hgc : ∀ es : List Expr, Grows (expect .rightParen "')' after arguments" >>= fun paren =>
        calls e m (.call callee paren es)) := fun _ => (grows_expect _ _).bind fun _ => grows_calls hg m _
    have hgs := grows_separated (grows_counted hg "arguments") m 0
    rw [calls, clean_accept_bind]
    simp only [if_true, Bool.false_eq_true, if_false]
    constructor
    · rintro (⟨t, ts, ht, h'⟩ | ⟨hw, h'⟩)
      · have hlen : ts.length ≤ m := by simpa [ht] using hc
        rw [listed_eq, bind_assoc, clean_sees_bind] at h'
        cases hsees : (c.moved ts c.fresh).sees .rightParen with
        | true =>
          rw [hsees] at h'
          obtain ⟨w, us, hw, h'⟩ := clean_expect_bind.1 h'
          have hw : ts = w.1 :: us := hw
          have hlen' : us.length ≤ m := by simp [hw] at hlen; omega
          obtain ⟨d, r, hr, hf, rfl, rfl⟩ := (ih (by omega) _).derivation hlen' h'
          have hr : us = d.yield ++ r := hr
          refine ⟨.empty t w d, r, ?_, hf, rfl, rfl⟩
          rw [ht, hw, hr]
          simp [lists, Lists.yield]
        | false =>
          rw [hsees] at h'
          obtain ⟨d₁, r₁, hr₁, hf₁, h'⟩ := ((reads_arguments hg h m (by omega) 0).bind_iff hgs hgc hlen).1 h'
          have hr₁ : ts = d₁.yield ++ r₁ := hr₁
          obtain ⟨w, us, hw, h'⟩ := clean_expect_bind.1 h'
          have hw : r₁ = w.1 :: us := hw
          have hlen' : us.length ≤ m := by simp [hr₁, hw] at hlen; omega
          obtain ⟨d₂, r₂, hr₂, hf₂, rfl, rfl⟩ := (ih (by omega) _).derivation hlen' h'
          have hr₂ : us = d₂.yield ++ r₂ := hr₂
          refine ⟨.filled t d₁ w d₂, r₂, ?_, ⟨⟨by simpa using hf₁.1, hf₁.2.1, hf₂.1⟩, hf₂.2⟩, rfl, rfl⟩
          rw [ht, hr₁, hw, hr₂]
          simp [lists, Lists.yield]
      · obtain ⟨rfl, rfl⟩ := clean_pure.1 h'
        exact ⟨.done, c'.rest, rfl, ⟨trivial, hw⟩, rfl, rfl⟩
    · rintro ⟨d, r, hd, ⟨hl, hs⟩, rfl, rfl⟩
      cases d with
      | done => exact .inr ⟨by rw [show c.rest = r from hd]; exact hs, clean_pure.2 ⟨rfl, moved_of_nil hd⟩⟩
      | empty opening closing rest =>
        have hd : c.rest = opening.1 :: closing.1 :: (rest.yield ++ r) := by
          rw [hd]
          simp [lists, Lists.yield]
        have hlen : (rest.yield ++ r).length ≤ m := by simp [hd] at hc; simp; omega
        refine .inl ⟨opening, _, hd, ?_⟩
        have hsees : (c.moved (closing.1 :: (rest.yield ++ r)) c.fresh).sees .rightParen = true := by
          simp [Cursor.sees, closing.kind_eq]
        rw [listed_eq, bind_assoc, clean_sees_bind, hsees]
        refine clean_expect_bind.2 ⟨closing, _, rfl, ?_⟩
        exact (ih (by omega) _).clean (d := rest) hlen rfl ⟨hl, hs⟩
      | filled opening args closing rest =>
        have hd : c.rest = opening.1 :: (args.yield ++ closing.1 :: (rest.yield ++ r)) := by
          rw [hd]
          simp [lists, Lists.yield]
        have hlen : (args.yield ++ closing.1 :: (rest.yield ++ r)).length ≤ m := by simpa [hd] using hc
        have hlen' : (rest.yield ++ r).length ≤ m := by simp at hlen; simp; omega
        refine .inl ⟨opening, _, hd, ?_⟩
        have hsees : (c.moved (args.yield ++ closing.1 :: (rest.yield ++ r)) c.fresh).sees .rightParen = false :=
          without_iff_not_sees.1 (without_of_head args.exists_head begins_ne_rightParen _)
        rw [listed_eq, bind_assoc, clean_sees_bind, hsees]
        refine ((reads_arguments hg h m (by omega) 0).bind_iff hgs hgc hlen).2 ?_
        refine ⟨args, closing.1 :: (rest.yield ++ r), rfl, ⟨by simpa using hl.1, hl.2.1,
          assignment_stops_rightParen closing _, without_cons.2 (by rw [closing.kind_eq]; rfl)⟩, ?_⟩
        refine clean_expect_bind.2 ⟨closing, _, rfl, ?_⟩
        exact (ih (by omega) _).clean (d := rest) hlen' rfl ⟨hl.2.2, hs⟩

theorem reads_call {e : Parse Expr} {n : Nat} (hg : Grows e) (h : Reads e (phrase .assignment) n) :
    Reads (primary e >>= calls e (n + 1)) (phrase .call) (n + 1) := by
  intro c a c' hc
  rw [(reads_primary hg h).bind_iff (grows_primary hg) (grows_calls hg (n + 1)) hc]
  constructor
  · rintro ⟨d₁, r₁, hr₁, hf₁, h'⟩
    have hr₁ : c.rest = d₁.yield ++ r₁ := hr₁
    have hlen : r₁.length ≤ n + 1 := by simp [hr₁] at hc; omega
    obtain ⟨d₂, r₂, hr₂, hf₂, rfl, rfl⟩ := (reads_calls hg h (n + 1) (Nat.le_refl _) _).derivation hlen h'
    have hr₂ : r₁ = d₂.yield ++ r₂ := hr₂
    refine ⟨.call d₁ d₂, r₂, ?_, ⟨⟨hf₁.1, hf₂.1⟩, hf₂.2⟩, rfl, rfl⟩
    rw [hr₁, hr₂]
    simp [phrase, Phrase.yield]
  · rintro ⟨d, r, hd, ⟨hl, hs⟩, rfl, rfl⟩
    cases d with
    | call callee lists =>
      have hd : c.rest = callee.yield ++ (lists.yield ++ r) := by
        rw [hd]
        simp [phrase, Phrase.yield]
      have hlen : (lists.yield ++ r).length ≤ n + 1 := by simp [hd] at hc; simp; omega
      refine ⟨callee, lists.yield ++ r, hd, ⟨hl.1, fun _ _ => rfl⟩, ?_⟩
      exact (reads_calls hg h (n + 1) (Nat.le_refl _) _).clean (d := lists) hlen rfl ⟨hl.2, hs⟩

theorem isSign_of_literal {k : Kind} {v : Literal} (h : literalOf? k = some v) : isSign k = false := by
  cases k <;> first | rfl | cases h

/-- A call does not begin with a sign. -/
theorem call_without_sign (d : Phrase .call) (r : List Token) : Without isSign (d.yield ++ r) := by
  cases d with
  | call callee lists =>
    cases callee with
    | literal token v hv => exact without_cons.2 (isSign_of_literal hv)
    | named token => exact without_cons.2 (by rw [token.kind_eq]; rfl)
    | group opening inner closing => exact without_cons.2 (by rw [opening.kind_eq]; rfl)

theorem reads_unary {operand : Parse Expr} {n : Nat} (hg : Grows operand) (h : Reads operand (phrase .call) n) :
    ∀ m ≤ n, Reads (unary operand m) (phrase .unary) m := by
  intro m
  induction m with
  | zero =>
    intro _ c a c' hc
    have hr : c.rest = [] := List.length_eq_zero_iff.1 (Nat.le_zero.1 hc)
    rw [unary, h c a c' (by omega)]
    constructor
    · rintro ⟨d, r, hd, -⟩
      exact absurd (hd.symm.trans hr) (ne_nil_of_head d.exists_head r)
    · rintro ⟨d, r, hd, -⟩
      exact absurd (hd.symm.trans hr) (ne_nil_of_head d.exists_head r)
  | succ m ih =>
    intro hm c a c' hc
    change Clean (take? isSign >>= _) c a c' ↔ _
    rw [clean_take?_bind]
    constructor
    · rintro (⟨t, ts, ht, h'⟩ | ⟨hw, h'⟩)
      · have hlen : ts.length ≤ m := by simpa [ht] using hc
        obtain ⟨d, r, hr, hf, h'⟩ := ((ih (by omega)).bind_iff (grows_unary hg m) (fun _ => grows_pure _) hlen).1 h'
        have hr : ts = d.yield ++ r := hr
        obtain ⟨rfl, rfl⟩ := clean_pure.1 h'
        refine ⟨.signed t d, r, ?_, hf, rfl, rfl⟩
        rw [ht, hr]
        rfl
      · obtain ⟨d, r, hr, hf, rfl, rfl⟩ := h.derivation (by omega) h'
        exact ⟨.unsigned d, r, hr, hf, rfl, rfl⟩
    · rintro ⟨d, r, hd, ⟨hl, hs⟩, rfl, rfl⟩
      cases d with
      | signed sign right =>
        have hd : c.rest = sign.1 :: (right.yield ++ r) := hd
        have hlen : (right.yield ++ r).length ≤ m := by simpa [hd] using hc
        refine .inl ⟨sign, _, hd, ?_⟩
        refine ((ih (by omega)).bind_iff (grows_unary hg m) (fun _ => grows_pure _) hlen).2 ?_
        exact ⟨right, r, rfl, ⟨hl, hs⟩, clean_pure.2 ⟨rfl, rfl⟩⟩
      | unsigned value =>
        have hd : c.rest = value.yield ++ r := hd
        exact .inr ⟨hd ▸ call_without_sign value r, h.clean (d := value) (by omega) hd ⟨hl, hs⟩⟩

theorem reads_operation {e : Parse Expr} {n : Nat} (hg : Grows e) (h : Reads e (phrase .assignment) n) :
    Reads (operation (n + 1) e) (phrase (.level .or)) (n + 1) := by
  have hgc : Grows (primary e >>= calls e (n + 1)) := (grows_primary hg).bind fun _ => grows_calls hg _ _
  have hg₁ := grows_unary hgc (n + 1)
  have hg₂ := grows_chain .factor (n + 1) hg₁
  have hg₃ := grows_chain .term (n + 1) hg₂
  have hg₄ := grows_chain .comparison (n + 1) hg₃
  have hg₅ := grows_chain .equality (n + 1) hg₄
  have hg₆ := grows_chain .and (n + 1) hg₅
  have h₁ : Reads _ (phrase (operandOf .factor)) (n + 1) := reads_unary hgc (reads_call hg h) (n + 1) (Nat.le_refl _)
  have h₂ : Reads _ (phrase (operandOf .term)) (n + 1) := reads_chain hg₁ h₁
  have h₃ : Reads _ (phrase (operandOf .comparison)) (n + 1) := reads_chain hg₂ h₂
  have h₄ : Reads _ (phrase (operandOf .equality)) (n + 1) := reads_chain hg₃ h₃
  have h₅ : Reads _ (phrase (operandOf .and)) (n + 1) := reads_chain hg₄ h₄
  have h₆ : Reads _ (phrase (operandOf .or)) (n + 1) := reads_chain hg₅ h₅
  exact reads_chain hg₆ h₆

/-! ## Assignment

The rule reads an operation first and looks at it when it meets an equals sign.  An operation that turns out to be a
variable is the name alone. -/

def isVariable : Expr → Bool
  | .variable _ _ => true
  | _ => false

theorem isVariable_operationOf (level : Level) (left : Expr) (t : Token) (right : Expr) :
    isVariable (operationOf level left t right) = false := by
  cases level <;> rfl

theorem isVariable_tail {level : Level} : ∀ (d : Tail level) (left : Expr) (k : Nat), isVariable left = false →
    isVariable (d.build left k).1 = false
  | .done, _, _, h => h
  | .more operator _ rest, left, _, _ => isVariable_tail rest _ _ (isVariable_operationOf level left operator.1 _)

theorem isVariable_lists : ∀ (d : Lists) (callee : Expr) (k : Nat), isVariable callee = false →
    isVariable (d.build callee k).1 = false
  | .done, _, _, h => h
  | .empty _ _ rest, _, _, _ => isVariable_lists rest _ _ rfl
  | .filled _ _ _ rest, _, _, _ => isVariable_lists rest _ _ rfl

/-- **A derivation that builds a variable is the name alone.** -/
theorem yield_of_build_variable : ∀ {s : Symbol} (d : Phrase s) {k i : Nat} {t : Token},
    (d.build k).1 = .variable i t → d.yield = [t] ∧ t.kind = .identifier ∧ i = k ∧ (d.build k).2 = k + 1
  | _, .assign name equal value, k, i, t, h => by cases h
  | _, .operation value, k, i, t, h => yield_of_build_variable value h
  | _, @Phrase.chain level first rest, k, i, t, h => by
    cases rest with
    | done =>
      obtain ⟨hy, hrest⟩ := yield_of_build_variable first h
      exact ⟨by simp [Phrase.yield, Tail.yield, hy], hrest⟩
    | more operator right rest =>
      have := isVariable_tail rest (operationOf level (first.build k).1 operator.1 (right.build (first.build k).2).1)
        (right.build (first.build k).2).2 (isVariable_operationOf _ _ _ _)
      have h : (rest.build (operationOf level (first.build k).1 operator.1 (right.build (first.build k).2).1)
        (right.build (first.build k).2).2).1 = .variable i t := h
      rw [h] at this
      cases this
  | _, .signed sign right, k, i, t, h => by cases h
  | _, .unsigned value, k, i, t, h => yield_of_build_variable value h
  | _, .call callee lists, k, i, t, h => by
    cases lists with
    | done =>
      obtain ⟨hy, hrest⟩ := yield_of_build_variable callee h
      exact ⟨by simp [Phrase.yield, Lists.yield, hy], hrest⟩
    | empty opening closing rest =>
      have h : (rest.build (.call (callee.build k).1 closing.1 []) (callee.build k).2).1 = .variable i t := h
      have := isVariable_lists rest (.call (callee.build k).1 closing.1 []) (callee.build k).2 rfl
      rw [h] at this
      cases this
    | filled opening args closing rest =>
      have h : (rest.build (.call (callee.build k).1 closing.1 (args.build (callee.build k).2).1)
        (args.build (callee.build k).2).2).1 = .variable i t := h
      have := isVariable_lists rest (.call (callee.build k).1 closing.1 (args.build (callee.build k).2).1)
        (args.build (callee.build k).2).2 rfl
      rw [h] at this
      cases this
  | _, .literal token v hv, k, i, t, h => by cases h
  | _, .named token, k, i, t, h => by
    cases h
    exact ⟨rfl, token.kind_eq, rfl, rfl⟩
  | _, .group opening inner closing, k, i, t, h => by cases h

/-- A name as an operation. -/
def ofName (t : Word .identifier) : Phrase (.level .or) :=
  let factor : Phrase (.level .factor) := .chain (.unsigned (.call (.named t) .done)) .done
  let term : Phrase (.level .term) := .chain factor .done
  let comparison : Phrase (.level .comparison) := .chain term .done
  let equality : Phrase (.level .equality) := .chain comparison .done
  let and : Phrase (.level .and) := .chain equality .done
  .chain and .done

theorem stops_assignment {r : List Token} :
    Symbol.assignment.Stops r ↔ Without (· = .equal) r ∧ (Symbol.level .or).Stops r := by
  simp only [Symbol.Stops, Without, Symbol.goesOn, Bool.or_assoc]
  constructor
  · intro h
    exact ⟨fun t ht => (Bool.or_eq_false_iff.1 (h t ht)).1, fun t ht => (Bool.or_eq_false_iff.1 (h t ht)).2⟩
  · rintro ⟨h₁, h₂⟩ t ht
    exact Bool.or_eq_false_iff.2 ⟨h₁ t ht, h₂ t ht⟩

theorem operation_stops_equal (t : Word .equal) (ts : List Token) : (Symbol.level .or).Stops (t.1 :: ts) := by
  refine without_cons.2 ?_
  rw [t.kind_eq]
  rfl

/-- The rule for an assignment behind its equals sign. -/
def assignTo (target : Expr) (equals : Token) (value : Expr) : Parse Expr :=
  match target with
  | .variable _ name => fresh >>= fun k => pure (.assign k name value)
  | _ => note equals .invalidTarget >>= fun _ => pure target

theorem assignment_eq (n : Nat) (e : Parse Expr) : assignment n e = operation n e >>= fun target =>
    take? (· = .equal) >>= fun o =>
      match o with
      | none => pure target
      | some equals => e >>= assignTo target equals := rfl

theorem grows_assignTo (target : Expr) (equals : Token) (value : Expr) : Grows (assignTo target equals value) := by
  cases target
  all_goals first
    | exact grows_fresh.bind fun _ => grows_pure _
    | exact (grows_note _ _).bind fun _ => grows_pure _

theorem clean_assignTo {target value a : Expr} {equals : Token} {c c' : Cursor} :
    Clean (assignTo target equals value) c a c' ↔
      ∃ i name, target = .variable i name ∧ a = .assign c.fresh name value ∧ c' = c.moved c.rest (c.fresh + 1) := by
  cases target with
  | «variable» i name =>
    change Clean (fresh >>= _) c a c' ↔ _
    rw [clean_fresh_bind, clean_pure]
    constructor
    · rintro ⟨rfl, rfl⟩
      exact ⟨i, name, rfl, rfl, rfl⟩
    · rintro ⟨j, other, h, rfl, rfl⟩
      cases h
      exact ⟨rfl, rfl⟩
  | _ =>
    change Clean (note _ _ >>= _) c a c' ↔ _
    rw [clean_bind (grows_note _ _) fun _ => grows_pure _]
    simp

theorem reads_assignment {e : Parse Expr} {n : Nat} (hg : Grows e) (h : Reads e (phrase .assignment) n) :
    Reads (assignment (n + 1) e) (phrase .assignment) (n + 1) := by
  have hgo := grows_operation (n + 1) hg
  have hgt : ∀ target : Expr, Grows (take? (· = .equal) >>= fun o =>
      match o with
      | none => pure target
      | some equals => e >>= assignTo target equals) := by
    refine fun target => (grows_take? _).bind fun o => ?_
    cases o with
    | none => exact grows_pure _
    | some equals => exact hg.bind fun _ => grows_assignTo _ _ _
  intro c a c' hc
  rw [assignment_eq, (reads_operation hg h).bind_iff hgo hgt hc]
  constructor
  · rintro ⟨d₁, r₁, hr₁, hf₁, h'⟩
    have hr₁ : c.rest = d₁.yield ++ r₁ := hr₁
    rcases clean_take?_bind.1 h' with ⟨t, ts, ht, h'⟩ | ⟨hw, h'⟩
    · have ht : r₁ = t.1 :: ts := ht
      have hlen : ts.length ≤ n := by
        have hne := ne_nil_of_head d₁.exists_head []
        have := List.length_pos_iff.2 hne
        simp [hr₁, ht] at hc this
        omega
      obtain ⟨d₂, r₂, hr₂, hf₂, h'⟩ := (h.bind_iff hg (grows_assignTo _ _) hlen).1 h'
      have hr₂ : ts = d₂.yield ++ r₂ := hr₂
      obtain ⟨i, name, htarget, rfl, rfl⟩ := clean_assignTo.1 h'
      obtain ⟨hy, hk, rfl, hnext⟩ := yield_of_build_variable d₁ htarget
      refine ⟨.assign ⟨name, decide_eq_true hk⟩ t d₂, r₂, ?_, hf₂, ?_, ?_⟩
      · rw [hr₁, hy, ht, hr₂]
        rfl
      · simp only [phrase, Phrase.build, Cursor.moved_fresh, hnext]
      · simp only [phrase, Phrase.build, Cursor.moved_fresh, Cursor.moved_rest, Cursor.moved_moved, hnext]
    · obtain ⟨rfl, rfl⟩ := clean_pure.1 h'
      exact ⟨.operation d₁, r₁, hr₁, ⟨hf₁.1, stops_assignment.2 ⟨hw, hf₁.2⟩⟩, rfl, rfl⟩
  · rintro ⟨d, r, hd, ⟨hl, hs⟩, rfl, rfl⟩
    cases d with
    | assign name equal value =>
      have hd : c.rest = (ofName name).yield ++ equal.1 :: (value.yield ++ r) := hd
      have hlen : (value.yield ++ r).length ≤ n := by simp [hd] at hc; simp; omega
      have hlim : (ofName name).Limited := by simp [ofName, Phrase.Limited, Tail.Limited, Lists.Limited]
      refine ⟨ofName name, _, hd, ⟨hlim, operation_stops_equal equal _⟩, ?_⟩
      refine clean_take?_bind.2 (.inl ⟨equal, _, rfl, ?_⟩)
      refine (h.bind_iff hg (grows_assignTo _ _) hlen).2 ⟨value, r, rfl, ⟨hl, hs⟩, ?_⟩
      exact clean_assignTo.2 ⟨c.fresh, name.1, rfl, rfl, rfl⟩
    | operation value =>
      obtain ⟨hw, hs⟩ := stops_assignment.1 hs
      refine ⟨value, r, hd, ⟨hl, hs⟩, ?_⟩
      exact clean_take?_bind.2 (.inr ⟨hw, clean_pure.2 ⟨rfl, rfl⟩⟩)

/-- **The parser reads the expressions of the grammar**, and no others. -/
theorem reads_expression : ∀ n, Reads (expression n) (phrase .assignment) n
  | 0 => by
    intro c a c' hc
    have hr : c.rest = [] := List.length_eq_zero_iff.1 (Nat.le_zero.1 hc)
    constructor
    · intro h
      exact absurd h not_clean_fail
    · rintro ⟨d, r, hd, -⟩
      exact absurd (hd.symm.trans hr) (ne_nil_of_head d.exists_head r)
  | n + 1 => reads_assignment (grows_expression n) (reads_expression n)

end Parse
end Scriptlet
