import Mathlib
import Scriptlet.Proofs.Accepted
import Scriptlet.Proofs.Locality
import Scriptlet.Proofs.Positions

/-!
# The parser is total

Over any tokens, the walk by position does what the rules over the tokens to come do (`Follows`): it never looks outside
the list, never uses up a bound that reaches the first end, and every declaration that it begins before the end moves it
on.  So it goes through the positions one by one up to the first end and stops there, with what `parse` gives
(`parse_total`).
-/
namespace Scriptlet

/-! ## Tokens with a first end -/

/-- Tokens cut at the first end. -/
structure Tape where
  text : List Token
  stop : Token
  behind : List Token
  unended : ∀ t ∈ text, t.kind ≠ .eof
  ended : stop.kind = .eof

namespace Tape

variable (T : Tape)

def tokens : List Token := T.text ++ T.stop :: T.behind

/-- The cursor at a stand. -/
def cursor (s : Stand) : Cursor where
  rest := T.text.drop s.current
  stop := T.stop
  fresh := s.fresh
  faults := s.faults

/-- What holds of a walk at every time: it has gone through the positions one by one and is not past the end, and every
declaration on record has moved it on. -/
structure InOrder (s : Stand) : Prop where
  inside : s.current ≤ T.text.length
  history : s.positions = List.range (s.current + 1)
  moving : ∀ d ∈ s.declarations, d.1 < d.2 ∧ d.2 ≤ T.text.length

theorem inOrder_initial (fresh : Nat) : T.InOrder (.initial fresh) := ⟨Nat.zero_le _, rfl, fun d hd => by cases hd⟩

variable {T} {s : Stand} {t : Token} {ts : List Token}

theorem lt_of_rest (h : (T.cursor s).rest = t :: ts) : s.current < T.text.length := by
  by_contra hn
  have hnil : T.text.drop s.current = [] := List.drop_eq_nil_of_le (Nat.le_of_not_lt hn)
  rw [cursor, hnil] at h
  cases h

theorem current_of_rest (hs : T.InOrder s) (h : (T.cursor s).rest = []) : s.current = T.text.length :=
  Nat.le_antisymm hs.inside (List.drop_eq_nil_iff.1 h)

theorem getElem?_of_rest (h : (T.cursor s).rest = t :: ts) : T.tokens[s.current]? = some t := by
  have hd : (T.text.drop s.current).head? = some t := by
    have h : T.text.drop s.current = t :: ts := h
    rw [h]
    rfl
  rw [tokens, List.getElem?_append_left (lt_of_rest h), ← hd, List.head?_drop]

theorem kind_of_rest (h : (T.cursor s).rest = t :: ts) : t.kind ≠ .eof := by
  refine T.unended t (List.mem_of_mem_drop (i := s.current) ?_)
  have h : T.text.drop s.current = t :: ts := h
  rw [h]
  exact List.mem_cons_self

theorem cursor_next (h : (T.cursor s).rest = t :: ts) : T.cursor s.next = { T.cursor s with rest := ts } := by
  have hts : T.text.drop (s.current + 1) = ts := by
    have h : T.text.drop s.current = t :: ts := h
    rw [← List.tail_drop, h]
    rfl
  simp only [cursor, Stand.next, hts]

theorem InOrder.next (hs : T.InOrder s) (h : s.current < T.text.length) : T.InOrder s.next := by
  refine ⟨h, ?_, hs.moving⟩
  have hp : s.next.positions = s.positions ++ [s.current + 1] := List.reverse_cons
  rw [hp, hs.history]
  exact List.range_succ.symm

end Tape

/-! ## Steps -/

namespace Walk

variable {α β : Type}

theorem bind_def (w : Walk α) (f : α → Walk β) (tokens : List Token) (s : Stand) :
    (w >>= f) tokens s = match w tokens s with
      | (.value a, s) => f a tokens s
      | (.failed, s) => (.failed, s)
      | (.astray, s) => (.astray, s)
      | (.spent, s) => (.spent, s) := rfl

theorem bind_value {w : Walk α} {f : α → Walk β} {tokens : List Token} {s s' : Stand} {a : α}
    (h : w tokens s = (.value a, s')) : (w >>= f) tokens s = f a tokens s' := by
  rw [bind_def, h]

theorem bind_assoc {γ : Type} (w : Walk α) (f : α → Walk β) (g : β → Walk γ) :
    w >>= f >>= g = w >>= fun a => f a >>= g := by
  funext tokens s
  simp only [bind_def]
  rcases w tokens s with ⟨_ | _ | _ | _, s⟩ <;> rfl

theorem bind_pure (w : Walk α) : w >>= pure = w := by
  funext tokens s
  rw [bind_def]
  rcases w tokens s with ⟨_ | _ | _ | _, s⟩ <;> rfl

variable {T : Tape} {s : Stand} {t : Token} {ts : List Token}

theorem access_of_getElem? {i : Nat} (h : T.tokens[i]? = some t) : access i T.tokens s = (.value t, s) := by
  rw [access, h]

/-- At the end there is the token of the end. -/
theorem peek_eq (hs : T.InOrder s) : peek T.tokens s = (.value (T.cursor s).peek, s) := by
  have hp : peek T.tokens s = access s.current T.tokens s := rfl
  rw [hp]
  refine access_of_getElem? ?_
  cases hr : (T.cursor s).rest with
  | nil => simp [Tape.current_of_rest hs hr, Tape.tokens, Cursor.peek, Tape.cursor]
  | cons t ts => simp [Tape.getElem?_of_rest hr, Cursor.peek, hr]

theorem atEnd_eq (hs : T.InOrder s) : atEnd T.tokens s = (.value (T.cursor s).rest.isEmpty, s) := by
  rw [atEnd, bind_value (peek_eq hs)]
  cases hr : (T.cursor s).rest with
  | nil =>
    have hk : (T.cursor s).peek.kind = .eof := by
      rw [Cursor.peek, hr]
      exact T.ended
    simp [hk, pure]
  | cons t ts =>
    have hk : (T.cursor s).peek.kind ≠ .eof := by simpa [Cursor.peek, hr] using Tape.kind_of_rest hr
    simp [hk, pure]

theorem sees_eq (hs : T.InOrder s) (p : Kind → Bool) :
    sees p T.tokens s = (.value ((T.cursor s).rest.head?.any fun t => p t.kind), s) := by
  rw [sees, bind_value (atEnd_eq hs)]
  cases hr : (T.cursor s).rest with
  | nil => rfl
  | cons t ts =>
    have hp : (T.cursor s).peek = t := by simp [Cursor.peek, hr]
    simp only [List.isEmpty_cons, Bool.false_eq_true, if_false, bind_value (peek_eq hs), hp]
    rfl

theorem previous_next (h : (T.cursor s).rest = t :: ts) : previous T.tokens s.next = (.value t, s.next) :=
  access_of_getElem? (Tape.getElem?_of_rest h)

theorem advance_eq (hs : T.InOrder s) (h : (T.cursor s).rest = t :: ts) :
    advance T.tokens s = (.value t, s.next) := by
  rw [advance, bind_value (atEnd_eq hs), h]
  exact previous_next h

/-- At the end nothing is passed, and there is a token before it unless it is the first. -/
theorem advance_end (hs : T.InOrder s) (h : (T.cursor s).rest = []) (hpos : 0 < s.current) :
    ∃ t, advance T.tokens s = (.value t, s) := by
  have hc := Tape.current_of_rest hs h
  obtain ⟨i, hi⟩ := Nat.exists_eq_succ_of_ne_zero hpos.ne'
  have hlt : i < T.text.length := by omega
  refine ⟨T.text[i], ?_⟩
  have hprev : previous T.tokens s = access i T.tokens s := by
    simp only [previous, position, bind_def, hi]
  rw [advance, bind_value (atEnd_eq hs), h]
  refine hprev.trans (access_of_getElem? ?_)
  rw [Tape.tokens, List.getElem?_append_left hlt, List.getElem?_eq_getElem hlt]

theorem take?_nil (hs : T.InOrder s) (h : (T.cursor s).rest = []) (p : Kind → Bool) :
    take? p T.tokens s = (.value none, s) := by
  rw [take?, bind_value (sees_eq hs p), h]
  rfl

theorem take?_cons (hs : T.InOrder s) (h : (T.cursor s).rest = t :: ts) (p : Kind → Bool) :
    take? p T.tokens s = if p t.kind then (.value (some t), s.next) else (.value none, s) := by
  rw [take?, bind_value (sees_eq hs p), h]
  have hsome : (some <$> advance) T.tokens s = (.value (some t), s.next) := bind_value (advance_eq hs h)
  by_cases hp : p t.kind = true
  · simpa [hp] using hsome
  · simp [hp, pure]

theorem accept_bind (kind : Kind) (f : Bool → Walk β) :
    accept kind >>= f = take? (· = kind) >>= fun o => f o.isSome := by
  rw [accept, bind_assoc]
  rfl

end Walk

/-! ## A walk follows a rule -/

/-- How a walk ends where a rule gives a value or gives up. -/
def Ending.ofOption {α : Type} : Option α → Ending α
  | some a => .value a
  | none => .failed

/-- With at most `b` tokens in front of the end, the walk does what the rule does.  If `moves` is set, it moves on when
it gives a value. -/
def Follows {α : Type} (T : Tape) (b : Nat) (moves : Bool) (w : Walk α) (p : Parse α) : Prop :=
  ∀ s, T.InOrder s → T.text.length ≤ s.current + b → ∃ o s', w T.tokens s = (.ofOption o, s') ∧
    p (T.cursor s) = (o, T.cursor s') ∧ T.InOrder s' ∧ s.current ≤ s'.current ∧
      (moves = true → o.isSome = true → s.current < s'.current)

section

variable {α β : Type} {T : Tape} {b : Nat} {m : Bool} {w : Walk α} {p : Parse α} {f : α → Walk β} {g : α → Parse β}

namespace Follows

theorem mono (h : Follows T b m w p) {j : Nat} (hj : j ≤ b) : Follows T j m w p :=
  fun s hs hb => h s hs (by omega)

theorem still (h : Follows T b m w p) : Follows T b false w p := by
  intro s hs hb
  obtain ⟨o, s', hw, hp, hs', hle, -⟩ := h s hs hb
  exact ⟨o, s', hw, hp, hs', hle, by simp⟩

theorem bind (h : Follows T b false w p) (hf : ∀ a, Follows T b m (f a) (g a)) :
    Follows T b m (w >>= f) (p >>= g) := by
  intro s hs hb
  obtain ⟨o, s₁, hw, hp, hs₁, hle, -⟩ := h s hs hb
  rw [Walk.bind_def, Parse.bind_def, hw, hp]
  cases o with
  | none => exact ⟨none, s₁, rfl, rfl, hs₁, hle, by simp⟩
  | some a =>
    obtain ⟨o, s₂, hw₂, hp₂, hs₂, hle₂, hm⟩ := hf a s₁ hs₁ (by omega)
    exact ⟨o, s₂, hw₂, hp₂, hs₂, hle.trans hle₂, fun h₁ h₂ => hle.trans_lt (hm h₁ h₂)⟩

/-- Where the rule gives up at once, so does the whole walk. -/
theorem bind_fail {what : String} (h : Follows T b false w (Parse.fail what)) :
    Follows T b m (w >>= f) (Parse.fail what) := by
  intro s hs hb
  obtain ⟨o, s₁, hw, hp, hs₁, hle, -⟩ := h s hs hb
  obtain ⟨rfl, hc⟩ := Prod.mk.inj hp
  refine ⟨none, s₁, ?_, Prod.ext rfl hc, hs₁, hle, by simp⟩
  rw [Walk.bind_def, hw]
  rfl

theorem ite {c : Prop} [Decidable c] {w' : Walk α} {p' : Parse α} (h : Follows T b m w p) (h' : Follows T b m w' p') :
    Follows T b m (if c then w else w') (if c then p else p') := by
  split
  · exact h
  · exact h'

end Follows

/-! Steps that stay where they are. -/

theorem follows_pure (a : α) : Follows T b false (pure a) (pure a) :=
  fun s hs _ => ⟨some a, s, rfl, rfl, hs, le_rfl, by simp⟩

theorem follows_fresh : Follows T b false Walk.fresh Parse.fresh := fun s hs _ =>
  ⟨some s.fresh, { s with fresh := s.fresh + 1 }, rfl, rfl, ⟨hs.inside, hs.history, hs.moving⟩, le_rfl, by simp⟩

theorem follows_note (t : Token) (cause : Cause) : Follows T b false (Walk.note t cause) (Parse.note t cause) :=
  fun s hs _ => ⟨some (), s.note t cause, rfl, rfl, ⟨hs.inside, hs.history, hs.moving⟩, le_rfl, by simp⟩

theorem follows_peek : Follows T b false Walk.peek Parse.peek :=
  fun s hs _ => ⟨some (T.cursor s).peek, s, Walk.peek_eq hs, rfl, hs, le_rfl, by simp⟩

theorem follows_sees (kind : Kind) : Follows T b false (Walk.sees (· = kind)) (Parse.sees kind) :=
  fun s hs _ => ⟨some ((T.cursor s).sees kind), s, Walk.sees_eq hs _, rfl, hs, le_rfl, by simp⟩

theorem follows_fail (what : String) : Follows T b m (Walk.fail what : Walk α) (Parse.fail what) := by
  intro s hs _
  refine ⟨none, s.note (T.cursor s).peek (.expected what), ?_, rfl, ⟨hs.inside, hs.history, hs.moving⟩, le_rfl, by simp⟩
  rw [Walk.fail, Walk.bind_value (Walk.peek_eq hs)]
  rfl

/-! A token that is taken moves the walk on, and leaves one less in front of the end. -/

section

variable {q : Kind → Bool} {f : Option Token → Walk β} {g : Option Token → Parse β}

theorem follows_take?_bind (hsome : ∀ t, ∀ j < b, Follows T j false (f (some t)) (g (some t)))
    (hnone : Follows T b m (f none) (g none)) : Follows T b m (Walk.take? q >>= f) (Parse.take? q >>= g) := by
  intro s hs hb
  cases hr : (T.cursor s).rest with
  | nil =>
    have hp : (Parse.take? q >>= g) (T.cursor s) = g none (T.cursor s) := by
      rw [Parse.bind_def, Parse.take?, hr]
    rw [Walk.bind_value (Walk.take?_nil hs hr q), hp]
    exact hnone s hs hb
  | cons t ts =>
    have hlt := Tape.lt_of_rest hr
    by_cases hq : q t.kind = true
    · have hw : Walk.take? q T.tokens s = (.value (some t), s.next) := by rw [Walk.take?_cons hs hr, if_pos hq]
      rw [Walk.bind_value hw, Parse.take?_bind_of_kind hr hq, ← Tape.cursor_next hr]
      have hc : s.next.current = s.current + 1 := rfl
      obtain ⟨o, s', hw', hp', hs', hle, -⟩ := hsome t (b - 1) (by omega) s.next (hs.next hlt) (by omega)
      exact ⟨o, s', hw', hp', hs', by omega, fun _ _ => by omega⟩
    · have hw : Walk.take? q T.tokens s = (.value none, s) := by rw [Walk.take?_cons hs hr, if_neg hq]
      rw [Walk.bind_value hw, Parse.take?_bind_of_not hr (Bool.eq_false_iff.2 hq)]
      exact hnone s hs hb

/-- At the end nothing is taken, so the rule may have stopped looking. -/
theorem Follows.take?_end {p : Parse β} (h : Follows T 0 m (f none) p) : Follows T 0 m (Walk.take? q >>= f) p := by
  intro s hs hb
  have hr : (T.cursor s).rest = [] := List.drop_eq_nil_iff.2 hb
  rw [Walk.bind_value (Walk.take?_nil hs hr q)]
  exact h s hs hb

end

section

variable {kind : Kind} {f : Bool → Walk β} {g : Bool → Parse β}

theorem follows_accept_bind (htrue : ∀ j < b, Follows T j false (f true) (g true))
    (hfalse : Follows T b m (f false) (g false)) :
    Follows T b m (Walk.accept kind >>= f) (Parse.accept kind >>= g) := by
  rw [Walk.accept_bind, Parse.accept_bind]
  exact follows_take?_bind (fun _ => htrue) hfalse

theorem Follows.accept_end {p : Parse β} (h : Follows T 0 m (f false) p) :
    Follows T 0 m (Walk.accept kind >>= f) p := by
  rw [Walk.accept_bind]
  exact Follows.take?_end h

end

theorem follows_expect_bind {kind : Kind} {what : String} {f : Token → Walk β} {g : Token → Parse β}
    (h : ∀ t, ∀ j < b, Follows T j false (f t) (g t)) :
    Follows T b m (Walk.expect kind what >>= f) (Parse.expect kind what >>= g) := by
  rw [Walk.expect, Parse.expect, Walk.bind_assoc, Parse.bind_assoc]
  refine follows_take?_bind h ?_
  exact (follows_fail what).bind_fail

theorem follows_expect (kind : Kind) (what : String) :
    Follows T b m (Walk.expect kind what) (Parse.expect kind what) := by
  rw [← Walk.bind_pure (Walk.expect kind what), ← Parse.bind_pure (Parse.expect kind what)]
  exact follows_expect_bind fun t _ _ => follows_pure t

end

/-! ## Lists and expressions

The bound `k` of the walk is never used up; the bound `n` of the rule may be, at the end. -/

section

variable {α : Type} {T : Tape}

theorem follows_separated {item : Nat → Walk α} {item' : Nat → Parse α} : ∀ {b k n : Nat},
    (∀ i, Follows T b false (item i) (item' i)) → b < k → b ≤ n → ∀ i,
      Follows T b false (Walk.separated item k i) (Parse.separated item' n i)
  | _, 0, _, _, hk, _, _ => absurd hk (Nat.not_lt_zero _)
  | b, _ + 1, 0, h, _, hn, i => by
    obtain rfl := Nat.le_zero.1 hn
    exact (h i).bind fun a => .accept_end (follows_pure [a])
  | b, _ + 1, _ + 1, h, hk, hn, i => by
    refine (h i).bind fun a => follows_accept_bind (fun j hj => ?_) (follows_pure [a])
    exact (follows_separated (fun i => (h i).mono hj.le) (by omega) (by omega) (i + 1)).bind fun _ => follows_pure _

theorem follows_listed {b k n : Nat} {item : Walk α} {item' : Parse α} (h : Follows T b false item item')
    (what : String) (hk : b < k) (hn : b ≤ n) :
    Follows T b false (Walk.listed item what k) (Parse.listed item' what n) := by
  rw [Parse.listed_eq]
  refine (follows_sees _).bind fun _ => .ite (follows_pure []) (follows_separated (fun i => ?_) hk hn 0)
  exact .ite (follows_peek.bind fun t => (follows_note t _).bind fun _ => h) h

end

section

variable {T : Tape} {b k n : Nat} {e : Walk Expr} {e' : Parse Expr}

theorem follows_primary (h : ∀ j < b, Follows T j false e e') :
    Follows T b false (Walk.primary e) (Parse.primary e') := by
  rw [Parse.primary_eq]
  refine follows_take?_bind (fun t j hj => ?_) (follows_fail _)
  dsimp only
  unfold Walk.primaryFrom Parse.primaryFrom
  cases Grammar.literalOf? t.kind with
  | some v => exact follows_pure _
  | none =>
    exact .ite (follows_fresh.bind fun _ => follows_pure _)
      ((h j hj).bind fun _ => follows_expect_bind fun _ _ _ => follows_pure _)

theorem follows_calls : ∀ {b k n : Nat}, (∀ j < b, Follows T j false e e') → b < k → b ≤ n → ∀ callee,
    Follows T b false (Walk.calls e k callee) (Parse.calls e' n callee)
  | _, 0, _, _, hk, _, _ => absurd hk (Nat.not_lt_zero _)
  | b, _ + 1, 0, _, _, hn, callee => by
    obtain rfl := Nat.le_zero.1 hn
    exact .accept_end (follows_pure callee)
  | b, _ + 1, _ + 1, h, hk, hn, callee => by
    refine follows_accept_bind (fun j hj => ?_) (follows_pure callee)
    refine (follows_listed (h j hj) _ (by omega) (by omega)).bind fun es => follows_expect_bind fun t i hi => ?_
    exact follows_calls (fun l hl => h l (by omega)) (by omega) (by omega) _

theorem follows_unary : ∀ {b k n : Nat}, Follows T b false e e' → b < k → b ≤ n →
    Follows T b false (Walk.unary e k) (Parse.unary e' n)
  | _, 0, _, _, hk, _ => absurd hk (Nat.not_lt_zero _)
  | b, _ + 1, 0, h, _, hn => by
    obtain rfl := Nat.le_zero.1 hn
    exact Follows.take?_end h
  | b, _ + 1, _ + 1, h, hk, hn => by
    refine follows_take?_bind (fun t j hj => ?_) h
    exact (follows_unary (h.mono hj.le) (by omega) (by omega)).bind fun _ => follows_pure _

theorem follows_joined (level : Parse.Level) : ∀ {b k n : Nat}, Follows T b false e e' → b < k → b ≤ n → ∀ left,
    Follows T b false (Walk.joined level e k left) (Parse.joined level e' n left)
  | _, 0, _, _, hk, _, _ => absurd hk (Nat.not_lt_zero _)
  | b, _ + 1, 0, _, _, hn, left => by
    obtain rfl := Nat.le_zero.1 hn
    exact Follows.take?_end (follows_pure left)
  | b, _ + 1, _ + 1, h, hk, hn, left => by
    refine follows_take?_bind (fun t j hj => ?_) (follows_pure left)
    have h := h.mono hj.le
    exact h.bind fun _ => follows_joined level h (by omega) (by omega) _

theorem follows_chain (level : Parse.Level) (h : Follows T b false e e') (hk : b < k) (hn : b ≤ n) :
    Follows T b false (Walk.chain level k e) (Parse.chain level n e') :=
  h.bind fun left => follows_joined level h hk hn left

theorem follows_assignTo (target : Expr) (equals : Token) (value : Expr) :
    Follows T b false (Walk.assignTo target equals value) (Parse.assignTo target equals value) := by
  cases target
  all_goals first
    | exact follows_fresh.bind fun _ => follows_pure _
    | exact (follows_note _ _).bind fun _ => follows_pure _

theorem follows_assignment (h : ∀ j < b, Follows T j false e e') (hk : b < k) (hn : b ≤ n) :
    Follows T b false (Walk.assignment k e) (Parse.assignment n e') := by
  have hcall : Follows T b false (Walk.primary e >>= Walk.calls e k) (Parse.primary e' >>= Parse.calls e' n) :=
    (follows_primary h).bind fun callee => follows_calls h hk hn callee
  have hop : Follows T b false (Walk.operation k e) (Parse.operation n e') :=
    follows_chain _ (follows_chain _ (follows_chain _ (follows_chain _ (follows_chain _ (follows_chain _
      (follows_unary hcall hk hn) hk hn) hk hn) hk hn) hk hn) hk hn) hk hn
  rw [Parse.assignment_eq]
  exact hop.bind fun target => follows_take?_bind
    (fun t j hj => (h j hj).bind fun value => follows_assignTo target t value) (follows_pure target)

end

section

variable {T : Tape}

/-- At the end there is no expression. -/
theorem follows_expression_end (k : Nat) :
    Follows T 0 false (Walk.expression (k + 1)) (Parse.fail "expression") := by
  have hprimary : Follows T 0 false (Walk.primary (Walk.expression k)) (Parse.fail "expression") :=
    Follows.take?_end (follows_fail _)
  have hunary :
      Follows T 0 false (Walk.unary (Walk.primary (Walk.expression k) >>= Walk.calls (Walk.expression k) (k + 1))
      (k + 1)) (Parse.fail "expression") := Follows.take?_end hprimary.bind_fail
  exact hunary.bind_fail.bind_fail.bind_fail.bind_fail.bind_fail.bind_fail.bind_fail

theorem follows_expression : ∀ {b k n : Nat}, b < k → b ≤ n →
    Follows T b false (Walk.expression k) (Parse.expression n)
  | _, 0, _, hk, _ => absurd hk (Nat.not_lt_zero _)
  | b, k + 1, 0, _, hn => by
    obtain rfl := Nat.le_zero.1 hn
    exact follows_expression_end k
  | b, k + 1, n + 1, hk, hn => follows_assignment (fun j hj => follows_expression (by omega) (by omega)) hk hn

end

/-! ## Statements -/

section

variable {β : Type} {T : Tape} {b k n : Nat} {m : Bool}

theorem follows_ended (hk : b < k) (hn : b ≤ n) (what : String) (make : Expr → Stmt) :
    Follows T b m (Walk.ended k what make) (Parse.ended n what >>= fun value => pure (make value)) := by
  have h : (Parse.ended n what >>= fun value => pure (make value)) =
      Parse.expression n >>= fun value => Parse.expect .semicolon what >>= fun _ => pure (make value) := by
    simp only [Parse.ended, Parse.bind_assoc, Parse.pure_bind]
  rw [h]
  exact (follows_expression hk hn).bind fun _ => follows_expect_bind fun _ _ _ => follows_pure _

theorem follows_optionalUpTo {kind : Kind} {what : String} {rest : Option Expr → Walk β} {rest' : Option Expr → Parse β}
    (hk : b < k) (hn : b ≤ n) (h : ∀ o, ∀ j < b, Follows T j false (rest o) (rest' o)) :
    Follows T b m (Walk.optionalUpTo k kind what rest) (Parse.optionalUpTo n kind what rest') := by
  refine (follows_sees kind).bind fun _ => .ite ?_ ?_
  · exact follows_expect_bind fun _ => h none
  · rw [Parse.map_def, Parse.bind_assoc]
    exact (follows_expression hk hn).bind fun value => follows_expect_bind fun _ => h (some value)

theorem follows_varDeclaration (hk : b < k) (hn : b ≤ n) :
    Follows T b m (Walk.varDeclaration k) (Parse.varDeclaration n) := by
  refine follows_expect_bind fun name j hj => follows_accept_bind (fun i hi => ?_) ?_
  · have h := follows_ended (T := T) (b := i) (m := false) (k := k) (n := n) (by omega) (by omega)
      "';' after variable declaration" fun value => .var name (some value)
    simpa only [if_true, Parse.map_def, Parse.ended, Parse.bind_assoc, Parse.pure_bind] using h
  · exact follows_expect_bind fun _ _ _ => follows_pure _

variable {statement : Walk Stmt} {statement' : Parse Stmt} {body : Walk (List Stmt)} {body' : Parse (List Stmt)}

theorem follows_ifStatement (hs : Follows T b false statement statement') (hk : b < k) (hn : b ≤ n) :
    Follows T b false (Walk.ifStatement k statement) (Parse.ifStatement n statement') := by
  refine follows_expect_bind fun _ j hj => (follows_expression (by omega) (by omega)).bind fun test => ?_
  refine follows_expect_bind fun _ i hi => (hs.mono (by omega)).bind fun yes => follows_accept_bind (fun l hl => ?_) ?_
  · have h : Follows T l false (statement >>= fun no => pure (Stmt.conditional test yes (some no)))
        (statement' >>= fun no => pure (Stmt.conditional test yes (some no))) :=
      (hs.mono (by omega)).bind fun _ => follows_pure _
    simpa only [if_true, Parse.map_def, Parse.bind_assoc, Parse.pure_bind] using h
  · exact follows_pure _

theorem follows_whileStatement (hs : Follows T b false statement statement') (hk : b < k) (hn : b ≤ n) :
    Follows T b false (Walk.whileStatement k statement) (Parse.whileStatement n statement') := by
  refine follows_expect_bind fun _ j hj => (follows_expression (by omega) (by omega)).bind fun test => ?_
  exact follows_expect_bind fun _ i hi => (hs.mono (by omega)).bind fun _ => follows_pure _

theorem follows_forInitializer (hk : b < k) (hn : b ≤ n) :
    Follows T b false (Walk.forInitializer k) (Parse.forInitializer n) := by
  refine follows_accept_bind (fun _ _ => follows_pure none) (follows_accept_bind (fun j hj => ?_) ?_)
  · exact (follows_varDeclaration (by omega) (by omega)).bind fun _ => follows_pure _
  · exact (follows_ended hk hn _ _).bind fun _ => follows_pure _

theorem follows_forStatement (hs : Follows T b false statement statement') (hk : b < k) (hn : b ≤ n) :
    Follows T b false (Walk.forStatement k statement) (Parse.forStatement n statement') := by
  rw [Parse.forStatement_eq]
  refine follows_expect_bind fun _ j hj => (follows_forInitializer (by omega) (by omega)).bind fun start => ?_
  refine follows_optionalUpTo (by omega) (by omega) fun test i hi => ?_
  refine follows_optionalUpTo (by omega) (by omega) fun step l hl => ?_
  exact (hs.mono (by omega)).bind fun _ => follows_pure _

theorem follows_block (hb : Follows T b false body body') (make : List Stmt → Stmt) :
    Follows T b false (Walk.block body make) (Parse.block body' >>= fun ss => pure (make ss)) := by
  rw [Parse.block, Parse.bind_assoc]
  simp only [Parse.bind_assoc, Parse.pure_bind]
  exact hb.bind fun _ => follows_expect_bind fun _ _ _ => follows_pure _

theorem follows_functionDeclaration (hb : Follows T b false body body') (hk : b < k) (hn : b ≤ n) :
    Follows T b false (Walk.functionDeclaration k body) (Parse.functionDeclaration n body') := by
  rw [Parse.functionDeclaration_eq]
  refine follows_expect_bind fun name j hj => follows_expect_bind fun _ i hi => ?_
  refine (follows_listed (follows_expect _ _) _ (by omega) (by omega)).bind fun params => ?_
  refine follows_expect_bind fun _ l hl => follows_expect_bind fun _ l' hl' => ?_
  exact follows_block (hb.mono (by omega)) _

theorem follows_statementWith (hs : ∀ j < b, Follows T j false statement statement')
    (hb : ∀ j < b, Follows T j false body body') (hk : b < k) (hn : b ≤ n) :
    Follows T b true (Walk.statementWith k statement body) (Parse.statementWith n statement' body') := by
  rw [Parse.statementWith_eq]
  refine follows_take?_bind (fun t j hj => ?_) (follows_ended hk hn _ _)
  have hk : j < k := by omega
  have hn : j ≤ n := by omega
  dsimp only
  cases t.kind
  case forWord => exact follows_forStatement (hs j hj) hk hn
  case ifWord => exact follows_ifStatement (hs j hj) hk hn
  case printWord => exact follows_ended hk hn _ _
  case returnWord => exact follows_optionalUpTo hk hn fun _ _ _ => follows_pure _
  case whileWord => exact follows_whileStatement (hs j hj) hk hn
  all_goals exact follows_block (hb j hj) _

theorem follows_declared (hs : Follows T b true statement statement') (hb : ∀ j < b, Follows T j false body body')
    (hk : b < k) (hn : b ≤ n) :
    Follows T b true (Walk.declared k statement body) (Parse.declared n statement' body') := by
  refine follows_accept_bind (fun j hj => follows_functionDeclaration (hb j hj) (by omega) (by omega)) ?_
  exact follows_accept_bind (fun j hj => follows_varDeclaration (by omega) (by omega)) hs

end

/-! ## Declarations -/

/-- In front of the end, and of at most `b` tokens, the walk does what the rule does, does not give up and moves on. -/
def Covers {α : Type} (T : Tape) (b : Nat) (w : Walk α) (p : Parse α) : Prop :=
  ∀ s, T.InOrder s → s.current < T.text.length → T.text.length ≤ s.current + b → ∃ a s', w T.tokens s = (.value a, s') ∧
    p (T.cursor s) = (some a, T.cursor s') ∧ T.InOrder s' ∧ s.current < s'.current

section

variable {T : Tape} {b k n : Nat}

/-- From behind a token, the walk goes to the boundary that `Parse.skip` finds. -/
theorem toBoundary_eq : ∀ {k : Nat} {s : Stand} {t : Token} {ts : List Token}, T.InOrder s →
    (T.cursor s).rest = t :: ts → ts.length < k → ∃ s', Walk.toBoundary k T.tokens s.next = (.value (), s') ∧
      T.cursor s' = { T.cursor s with rest := Parse.skip (t :: ts) } ∧ T.InOrder s' ∧ s.current < s'.current
  | 0, _, _, _, _, _, hk => absurd hk (Nat.not_lt_zero _)
  | k + 1, s, t, ts, hs, hr, hk => by
    have hs' := hs.next (Tape.lt_of_rest hr)
    have hc := Tape.cursor_next hr
    have hstop (h : Parse.skip (t :: ts) = ts) (hw : Walk.toBoundary (k + 1) T.tokens s.next = (.value (), s.next)) :
        ∃ s', Walk.toBoundary (k + 1) T.tokens s.next = (.value (), s') ∧
          T.cursor s' = { T.cursor s with rest := Parse.skip (t :: ts) } ∧ T.InOrder s' ∧ s.current < s'.current :=
      ⟨s.next, hw, by rw [h, hc], hs', Nat.lt_succ_self _⟩
    cases ts with
    | nil =>
      refine hstop (by simp [Parse.skip]) ?_
      rw [Walk.toBoundary, Walk.bind_value (Walk.atEnd_eq hs'), hc]
      rfl
    | cons u us =>
      have hr' : (T.cursor s.next).rest = u :: us := by rw [hc]
      have hpeek : (T.cursor s.next).peek = u := by simp [Cursor.peek, hr']
      have hw : Walk.toBoundary (k + 1) T.tokens s.next =
          if t.kind = .semicolon then (.value (), s.next)
          else if u.kind.beginsStatement = true then (.value (), s.next)
          else Walk.toBoundary k T.tokens s.next.next := by
        rw [Walk.toBoundary, Walk.bind_value (Walk.atEnd_eq hs'), hr']
        simp only [List.isEmpty_cons, Bool.false_eq_true, if_false]
        rw [Walk.bind_value (Walk.previous_next hr)]
        split
        · rfl
        rw [Walk.bind_value (Walk.peek_eq hs'), hpeek]
        split
        · rfl
        exact Walk.bind_value (Walk.advance_eq hs' hr')
      by_cases ht : t.kind = .semicolon
      · exact hstop (by simp [Parse.skip, ht]) (by rw [hw, if_pos ht])
      by_cases hu : u.kind.beginsStatement = true
      · exact hstop (by simp [Parse.skip, ht, hu]) (by rw [hw, if_neg ht, if_pos hu])
      · obtain ⟨s₂, hw₂, hc₂, hs₂, hlt⟩ := toBoundary_eq (k := k) hs' hr' (by simpa using hk)
        have hskip : Parse.skip (t :: u :: us) = Parse.skip (u :: us) := by
          rw [Parse.skip, if_neg ht, if_neg (by simpa using hu)]
        refine ⟨s₂, by rw [hw, if_neg ht, if_neg hu, hw₂], ?_, hs₂, (Nat.lt_succ_self _).trans hlt⟩
        rw [hc₂, hc, hskip]

/-- **A declaration moves on, whether it is read or given up.** -/
theorem covers_recovering {α : Type} {w : Walk α} {p : Parse α} (h : Follows T b true w p) (hk : b < k) :
    Covers T b (Walk.recovering k w) (Parse.recovering p) := by
  intro s hs hlt hb
  obtain ⟨o, s₁, hw, hp, hs₁, hle, hm⟩ := h s hs hb
  rw [Walk.recovering, hw]
  cases o with
  | some a => exact ⟨some a, s₁, rfl, by rw [Parse.recovering, hp], hs₁, hm rfl rfl⟩
  | none =>
    have hp : Parse.recovering p (T.cursor s) =
        (some none, { T.cursor s₁ with rest := Parse.skip (T.cursor s₁).rest }) := by rw [Parse.recovering, hp]
    rw [hp]
    cases hr : (T.cursor s₁).rest with
    | nil =>
      -- given up at the end, which the declaration did not begin at
      have hend := Tape.current_of_rest hs₁ hr
      obtain ⟨t, ha⟩ := Walk.advance_end hs₁ hr (by omega)
      obtain ⟨k, rfl⟩ := Nat.exists_eq_succ_of_ne_zero (Nat.ne_zero_of_lt hk)
      have ht : Walk.toBoundary (k + 1) T.tokens s₁ = (.value (), s₁) := by
        rw [Walk.toBoundary, Walk.bind_value (Walk.atEnd_eq hs₁), hr]
        rfl
      have hskip : { T.cursor s₁ with rest := Parse.skip [] } = T.cursor s₁ := by
        rw [Parse.skip, ← hr]
      refine ⟨none, s₁, ?_, congrArg (Prod.mk _) hskip, hs₁, by omega⟩
      exact (Walk.bind_value ha).trans (Walk.bind_value ht)
    | cons t ts =>
      have hlen : ts.length < k := by
        have h : T.text.drop s₁.current = t :: ts := hr
        have hl := congrArg List.length h
        simp only [List.length_drop, List.length_cons] at hl
        omega
      obtain ⟨s₂, hw₂, hc₂, hs₂, hlt₂⟩ := toBoundary_eq hs₁ hr hlen
      refine ⟨none, s₂, ?_, by rw [hc₂], hs₂, by omega⟩
      exact (Walk.bind_value (Walk.advance_eq hs₁ hr)).trans (Walk.bind_value hw₂)

theorem Covers.recorded {α : Type} {w : Walk α} {p : Parse α} (h : Covers T b w p) :
    Covers T b (Walk.recorded w) p := by
  intro s hs hlt hb
  obtain ⟨a, s', hw, hp, hs', hlt'⟩ := h s hs hlt hb
  refine ⟨a, { s' with declarations := s'.declarations ++ [(s.current, s'.current)] }, ?_, hp,
    ⟨hs'.inside, hs'.history, fun d hd => ?_⟩, hlt'⟩
  · have hposition : Walk.position T.tokens s = (.value s.current, s) := rfl
    rw [Walk.recorded, Walk.bind_value hposition, Walk.bind_value hw]
    rfl
  · rcases List.mem_append.1 hd with hd | hd
    · exact hs'.moving d hd
    · obtain rfl := List.mem_singleton.1 hd
      exact ⟨hlt', hs'.inside⟩

/-- The declarations end at the end or in front of a token of the kind. -/
theorem declarations_eq (close : Kind) {w : Walk (Option Stmt)} {p : Parse (Option Stmt)} : ∀ {b k n : Nat},
    Covers T b w p → b < k → b ≤ n → ∀ s, T.InOrder s → T.text.length ≤ s.current + b → ∃ ss s',
      Walk.declarations close w k T.tokens s = (.value ss, s') ∧
        Parse.declarations close p n (T.cursor s) = (some ss, T.cursor s') ∧ T.InOrder s' ∧ s.current ≤ s'.current ∧
          ∀ t ∈ (T.cursor s').rest.head?, t.kind = close
  | _, 0, _, _, hk, _, _, _, _ => absurd hk (Nat.not_lt_zero _)
  | b, k + 1, n, h, hk, hn, s, hs, hb => by
    rw [Walk.declarations, Walk.bind_value (Walk.sees_eq hs _)]
    cases hr : (T.cursor s).rest with
    | nil =>
      refine ⟨[], s, ?_, ?_, hs, le_rfl, by simp [hr]⟩
      · exact (Walk.bind_value (Walk.atEnd_eq hs)).trans (by rw [hr]; rfl)
      · cases n with
        | zero => rfl
        | succ n => simp [Parse.declarations_succ, Parse.bind_def, Parse.sees, Parse.atEnd, Cursor.sees, hr,
          Parse.pure_def]
    | cons t ts =>
      have hlt := Tape.lt_of_rest hr
      obtain ⟨n, rfl⟩ : ∃ i, n = i + 1 := Nat.exists_eq_succ_of_ne_zero (by omega)
      rw [Parse.declarations_succ]
      by_cases hclose : t.kind = close
      · refine ⟨[], s, by simp [hclose, pure], ?_, hs, le_rfl, by simp [hr, hclose]⟩
        simp [Parse.bind_def, Parse.sees, Cursor.sees, hr, hclose, Parse.pure_def]
      · obtain ⟨o, s₁, hw, hp, hs₁, hlt₁⟩ := h s hs hlt hb
        have hcov : Covers T (b - 1) w p := fun s hs hlt hb => h s hs hlt (by omega)
        obtain ⟨ss, s₂, hw₂, hp₂, hs₂, hle₂, hend⟩ :=
          declarations_eq close (k := k) (n := n) hcov (by omega) (by omega) s₁ hs₁ (by omega)
        refine ⟨o.toList ++ ss, s₂, ?_, ?_, hs₂, by omega, hend⟩
        · simp only [List.head?_cons, Option.any_some, hclose, decide_false, Bool.false_eq_true, if_false]
          rw [Walk.bind_value (Walk.atEnd_eq hs), hr]
          simp only [List.isEmpty_cons, Bool.false_eq_true, if_false]
          rw [Walk.bind_value hw, Walk.bind_value hw₂]
          rfl
        · simp [Parse.bind_def, Parse.sees, Parse.atEnd, Cursor.sees, hr, hclose, hp, hp₂, Parse.pure_def]

theorem follows_declarations {close : Kind} {w : Walk (Option Stmt)} {p : Parse (Option Stmt)} (h : Covers T b w p)
    (hk : b < k) (hn : b ≤ n) :
    Follows T b false (Walk.declarations close w k) (Parse.declarations close p n) := by
  intro s hs hb
  obtain ⟨ss, s', hw, hp, hs', hle, -⟩ := declarations_eq close h hk hn s hs hb
  exact ⟨some ss, s', hw, hp, hs', hle, by simp⟩

theorem covers_declaration {statement : Walk Stmt} {statement' : Parse Stmt} {body : Walk (List Stmt)}
    {body' : Parse (List Stmt)} (hs : Follows T b true statement statement')
    (hb : ∀ j < b, Follows T j false body body') (hk : b < k) (hn : b ≤ n) :
    Covers T b (Walk.declaration k statement body) (Parse.declaration n statement' body') :=
  (covers_recovering (follows_declared hs hb hk hn) hk).recorded

theorem follows_statement_and_body : ∀ {b k n : Nat}, b < k → b ≤ n →
    Follows T b true (Walk.statement k) (Parse.statement n) ∧ Follows T b false (Walk.body k) (Parse.body n)
  | _, 0, _, hk, _ => absurd hk (Nat.not_lt_zero _)
  | b, k + 1, 0, hk, hn => by
    obtain rfl := Nat.le_zero.1 hn
    rw [Walk.statement, Walk.body]
    refine ⟨Follows.take?_end (follows_ended hk hn _ _), fun s hs hb => ?_⟩
    have hr : (T.cursor s).rest = [] := List.drop_eq_nil_iff.2 hb
    refine ⟨some [], s, ?_, rfl, hs, le_rfl, by simp⟩
    rw [Walk.declarations, Walk.bind_value (Walk.sees_eq hs _), hr]
    exact (Walk.bind_value (Walk.atEnd_eq hs)).trans (by rw [hr]; rfl)
  | b, k + 1, n + 1, hk, hn => by
    have ih (j : Nat) (hj : j < b) := follows_statement_and_body (b := j) (k := k) (n := n) (by omega) (by omega)
    have hb (j : Nat) (hj : j < b) := (ih j hj).2
    have hs := follows_statementWith (fun j hj => (ih j hj).1.still) hb hk hn
    rw [Walk.statement, Walk.body]
    exact ⟨hs, follows_declarations (covers_declaration hs hb hk hn) hk hn⟩

end

/-! ## Whole texts -/

/-- The walk over a whole text does what the rule does, and ends at the first end. -/
theorem Tape.program_eq (T : Tape) {k n : Nat} (hk : T.text.length < k) (hn : T.text.length ≤ n) (fresh : Nat) :
    ∃ ss s, Walk.program k T.tokens (.initial fresh) = (.value ss, s) ∧
      Parse.program n (T.cursor (.initial fresh)) = (some ss, T.cursor s) ∧ T.InOrder s ∧
        s.current = T.text.length := by
  have hstatement := (follows_statement_and_body (T := T) hk hn).1
  have hbody (j : Nat) (hj : j < T.text.length) :=
    (follows_statement_and_body (T := T) (hj.trans hk) (hj.le.trans hn)).2
  obtain ⟨ss, s, hw, hp, hs, -, hend⟩ := declarations_eq .eof (covers_declaration hstatement hbody hk hn) hk hn
    (.initial fresh) (T.inOrder_initial fresh) (Nat.le_add_left _ _)
  refine ⟨ss, s, hw, hp, hs, ?_⟩
  -- no token in front of the first end is an end, so nothing but the end can have stopped it
  cases hr : (T.cursor s).rest with
  | nil => exact current_of_rest hs hr
  | cons t ts => exact absurd (hend t (by rw [hr]; rfl)) (kind_of_rest hr)

theorem Tape.findIdx_tokens (T : Tape) : T.tokens.findIdx (·.kind = .eof) = T.text.length := by
  have htext : T.text.findIdx (·.kind = .eof) = T.text.length :=
    List.findIdx_eq_length.2 fun t ht => decide_eq_false (T.unended t ht)
  rw [tokens, List.findIdx_append, htext, if_neg (Nat.lt_irrefl _), List.findIdx_cons, T.ended]
  simp

/-- The tokens, cut at the first end. -/
def tapeOf (tokens : List Token) : Tape where
  text := parsedTokens tokens
  stop := (tokens.find? (·.kind = .eof)).getD (.atEnd ((tokens.getLast?.map Token.line).getD 1))
  behind := (withEnd tokens).drop ((parsedTokens tokens).length + 1)
  unended := fun t ht => by simpa using List.mem_takeWhile_imp ht
  ended := by
    cases h : tokens.find? (·.kind = .eof) with
    | none => rfl
    | some stop => simpa using List.find?_some h

theorem withEnd_eq (tokens : List Token) :
    ∃ behind, withEnd tokens = parsedTokens tokens ++ (tapeOf tokens).stop :: behind := by
  cases h : tokens.find? (·.kind = .eof) with
  | none =>
    have hstop : (tapeOf tokens).stop = .atEnd ((tokens.getLast?.map Token.line).getD 1) := by simp [tapeOf, h]
    have hkinds : ∀ t ∈ tokens, t.kind ≠ .eof := by simpa using h
    have htext : parsedTokens tokens = tokens := List.takeWhile_eq_self_iff.2 (by simpa using hkinds)
    refine ⟨[], ?_⟩
    rw [withEnd, htext, hstop, if_neg]
    rw [Option.any_eq_true]
    rintro ⟨t, ht, hk⟩
    exact hkinds t (List.mem_of_getLast? ht) (of_decide_eq_true hk)
  | some stop =>
    have hstop : (tapeOf tokens).stop = stop := by simp [tapeOf, h]
    rw [List.find?_eq_head?_dropWhile_not] at h
    obtain ⟨behind, hb⟩ := List.head?_eq_some_iff.1 h
    have htokens : tokens = parsedTokens tokens ++ stop :: behind := by
      rw [← hb, parsedTokens]
      simp
    rw [withEnd, hstop]
    split
    · exact ⟨behind, htokens⟩
    · -- an end in the middle: another one is put behind the last token
      refine ⟨behind ++ [.atEnd ((tokens.getLast?.map Token.line).getD 1)], ?_⟩
      conv => lhs; lhs; rw [htokens]
      simp

theorem tokens_tapeOf (tokens : List Token) : (tapeOf tokens).tokens = withEnd tokens := by
  obtain ⟨behind, h⟩ := withEnd_eq tokens
  have hbehind : (tapeOf tokens).behind = behind := by
    show (withEnd tokens).drop _ = _
    rw [h, List.drop_append]
    simp
  rw [h, Tape.tokens, hbehind]
  rfl

/-- **The parser is total.**  Let `e` be the position of the first end.  With any bound past `e` the walk over the
tokens ends, neither astray nor with a bound used up, in what `parse` gives; it has gone through the positions from 0
to `e` one by one and stops at `e`; and every declaration that was begun, read or given up, was begun before `e` and
has moved it on. -/
theorem parse_total (fresh : Nat) (tokens : List Token) :
    let e := (withEnd tokens).findIdx (·.kind = .eof)
    e < (withEnd tokens).length ∧ ∀ n, e < n → ∃ s,
      walk n fresh tokens = (.value (parse fresh tokens).statements, s) ∧ s.faults = (parse fresh tokens).faults ∧
        s.fresh = (parse fresh tokens).fresh ∧ s.current = e ∧ s.positions = List.range (e + 1) ∧
          ∀ d ∈ s.declarations, d.1 < d.2 ∧ d.2 ≤ e := by
  intro e
  have he : e = (tapeOf tokens).text.length := by
    show (withEnd tokens).findIdx _ = _
    rw [← tokens_tapeOf, Tape.findIdx_tokens]
  refine ⟨?_, fun n hn => ?_⟩
  · rw [he, ← tokens_tapeOf, Tape.tokens]
    simp
  obtain ⟨ss, s, hw, hp, hs, hcurrent⟩ := (tapeOf tokens).program_eq (he ▸ hn) le_rfl fresh
  have hp : Parse.program (parsedTokens tokens).length (startOf fresh tokens) =
      (some ss, (tapeOf tokens).cursor s) := hp
  rw [tokens_tapeOf] at hw
  rw [parse_eq, hp, he]
  exact ⟨s, hw, rfl, rfl, hcurrent, by rw [hs.history, hcurrent], hs.moving⟩

-- A block around a broken statement: first the statement is on record, up to behind its semicolon, and then the block.
example : (walk 5 0 ([.leftBrace, .rightParen, .semicolon, .rightBrace].map fun kind => ⟨kind, "", 1⟩)).2.declarations =
    [(1, 3), (0, 4)] := by decide

end Scriptlet
