import Mathlib
import Scriptlet.Proofs.Accepted
import Scriptlet.Proofs.BareRuns
import Scriptlet.Proofs.Growth

/-!
# Loops with an initializer, a test and a step

A `for` statement is read as a tree of blocks and a `while`, and has the meaning of the loop that it says
(`for_loops_run_directly`).  The body is no declaration, so the block around body and step declares nothing; it is
therefore left out without a difference, and the tree is the loop then.  The frame that this block makes in every round
stays empty, and the frame of the initializer is the same in all rounds.
-/
namespace Scriptlet

/-! ## Where the loops are -/

namespace Grammar

mutual
/-- The `for` statements of a derivation whose nodes are numbered from `k`. -/
def Form.loops {r : Rank} : Form r → Nat → List ForLoop
  | .function _ _ _ body _, k => body.loops k
  | .var _, _ => []
  | .statement form, k => form.loops k
  | .expression _ _, _ => []
  | .for _ clauses body, k =>
    let (start, k) := clauses.start.build k
    let (test, k) := clauses.test.build k
    let (step, k) := clauses.step.build k
    ⟨start, test, step, (body.build k).1⟩ :: body.loops k
  | .if _ condition yes, k => yes.loops (condition.test.build k).2
  | .ifElse _ condition yes _ no, k =>
    let (_, k) := condition.test.build k
    yes.loops k ++ no.loops (yes.build k).2
  | .print _ _ _, _ => []
  | .return _ _ _, _ => []
  | .while _ condition body, k => body.loops (condition.test.build k).2
  | .block _ body _, k => body.loops k

def Forms.loops : Forms → Nat → List ForLoop
  | .nil, _ => []
  | .cons first rest, k => first.loops k ++ rest.loops (first.build k).2
end

/-! There are as many `for` statements in a derivation as there are words `for` in its tokens. -/

/-- How many of the tokens are the word `for`. -/
def forWords (ts : List Token) : Nat := ts.countP fun t => t.kind = .forWord

@[simp] theorem forWords_nil : forWords [] = 0 := rfl

@[simp] theorem forWords_append (ts us : List Token) : forWords (ts ++ us) = forWords ts + forWords us :=
  List.countP_append

theorem forWords_cons_of_ne {t : Token} (h : t.kind ≠ .forWord) (ts : List Token) : forWords (t :: ts) = forWords ts :=
  List.countP_cons_of_neg (by simpa using h)

@[simp] theorem forWords_word {kind : Kind} (w : Word kind) (ts : List Token) :
    forWords (w.1 :: ts) = forWords ts + if kind = .forWord then 1 else 0 := by
  simp [forWords, List.countP_cons, w.kind_eq]

mutual
theorem Phrase.forWords_yield {s : Symbol} : ∀ d : Phrase s, forWords d.yield = 0
  | .assign _ _ value => by simp [Phrase.yield, Phrase.forWords_yield value]
  | .operation value => Phrase.forWords_yield value
  | .chain first rest => by simp [Phrase.yield, Phrase.forWords_yield first, Tail.forWords_yield rest]
  | .signed sign right => by
    have hne : sign.1.kind ≠ .forWord := fun h => absurd (h ▸ sign.2) (by decide)
    rw [Phrase.yield, forWords_cons_of_ne hne, Phrase.forWords_yield right]
  | .unsigned value => Phrase.forWords_yield value
  | .call callee lists => by simp [Phrase.yield, Phrase.forWords_yield callee, Lists.forWords_yield lists]
  | .literal token _ h => by
    have hne : token.kind ≠ .forWord := fun he => by
      rw [he] at h
      cases h
    rw [Phrase.yield, forWords_cons_of_ne hne, forWords_nil]
  | .named _ => by simp [Phrase.yield]
  | .group _ inner _ => by simp [Phrase.yield, Phrase.forWords_yield inner]

theorem Tail.forWords_yield {level : Parse.Level} : ∀ d : Tail level, forWords d.yield = 0
  | .done => rfl
  | .more operator right rest => by
    have hne : operator.1.kind ≠ .forWord := fun h => absurd (h ▸ operator.2) (by cases level <;> decide)
    rw [Tail.yield, forWords_cons_of_ne hne, forWords_append, Phrase.forWords_yield right, Tail.forWords_yield rest]

theorem Lists.forWords_yield : ∀ d : Lists, forWords d.yield = 0
  | .done => rfl
  | .empty _ _ rest => by simp [Lists.yield, Lists.forWords_yield rest]
  | .filled _ arguments _ rest => by
    simp [Lists.yield, Arguments.forWords_yield arguments, Lists.forWords_yield rest]

theorem Arguments.forWords_yield : ∀ d : Arguments, forWords d.yield = 0
  | .last value => Phrase.forWords_yield value
  | .more value _ rest => by simp [Arguments.yield, Phrase.forWords_yield value, Arguments.forWords_yield rest]
end

theorem Optional.forWords_yield (o : Optional) : forWords (Optional.yield o) = 0 := by
  cases o with
  | none => rfl
  | some value => exact value.forWords_yield

theorem VarForm.forWords_yield (v : VarForm) : forWords v.yield = 0 := by
  obtain ⟨word, name, initializer, semicolon⟩ := v
  cases initializer <;> simp [VarForm.yield, Initializer.yield, Phrase.forWords_yield]

theorem ForClauses.forWords_yield (c : ForClauses) : forWords c.yield = 0 := by
  obtain ⟨opening, start, test, semicolon, step, closing⟩ := c
  have hstart : forWords start.yield = 0 := by
    cases start with
    | none semicolon => simp [ForStart.yield]
    | var form => exact form.forWords_yield
    | expression value semicolon => simp [ForStart.yield, value.forWords_yield]
  simp [ForClauses.yield, hstart, Optional.forWords_yield]

theorem Parameters.forWords_yield (d : Parameters) : forWords d.yield = 0 := by
  induction d with
  | last name => simp [Parameters.yield]
  | more name comma rest ih => simp [Parameters.yield, ih]

theorem Header.forWords_yield (h : Header) : forWords h.yield = 0 := by
  obtain ⟨name, opening, params, closing⟩ := h
  cases params <;> simp [Header.yield, Parameters.forWords_yield]

mutual
theorem Form.length_loops {r : Rank} : ∀ (form : Form r) (k : Nat), (form.loops k).length = forWords form.yield
  | .function _ header _ body _, k => by
    simp [Form.loops, Form.yield, header.forWords_yield, Forms.length_loops body k]
  | .var form, _ => form.forWords_yield.symm
  | .statement form, k => Form.length_loops form k
  | .expression value _, _ => by simp [Form.loops, Form.yield, value.forWords_yield]
  | .for _ clauses body, k => by
    simp [Form.loops, Form.yield, clauses.forWords_yield, Form.length_loops body]
  | .if _ condition yes, k => by
    simp [Form.loops, Form.yield, Condition.yield, condition.test.forWords_yield, Form.length_loops yes]
  | .ifElse _ condition yes _ no, k => by
    simp [Form.loops, Form.yield, Condition.yield, condition.test.forWords_yield, Form.length_loops yes,
      Form.length_loops no]
  | .print _ value _, _ => by simp [Form.loops, Form.yield, value.forWords_yield]
  | .return _ value _, _ => by simp [Form.loops, Form.yield, Optional.forWords_yield]
  | .while _ condition body, k => by
    simp [Form.loops, Form.yield, Condition.yield, condition.test.forWords_yield, Form.length_loops body]
  | .block _ body _, k => by simp [Form.loops, Form.yield, Forms.length_loops body k]

theorem Forms.length_loops : ∀ (forms : Forms) (k : Nat), (forms.loops k).length = forWords forms.yield
  | .nil, _ => rfl
  | .cons first rest, k => by
    simp [Forms.loops, Forms.yield, Form.length_loops first, Forms.length_loops rest]
end

end Grammar

/-- The statements that a statement is made of. -/
def Stmt.parts : Stmt → List Stmt
  | .block body => body
  | .function _ _ body => body
  | .conditional _ yes no => yes :: no.toList
  | .while _ body => [body]
  | _ => []

mutual
theorem Stmt.of_mem_inside {P : Stmt → Prop} (hP : ∀ s, P s → ∀ t ∈ s.parts, P t) : ∀ s : Stmt, P s →
    ∀ t ∈ s.inside, P t
  | .block body, h, t, ht => Stmt.of_mem_insideAll hP body (hP _ h) t ht
  | .expression _, _, _, ht => by cases ht
  | .function _ _ body, h, t, ht => Stmt.of_mem_insideAll hP body (hP _ h) t ht
  | .conditional _ yes none, h, t, ht => by
    have hyes : P yes := hP _ h _ List.mem_cons_self
    simp only [Stmt.inside, List.append_nil] at ht
    rcases List.mem_cons.1 ht with rfl | ht
    · exact hyes
    · exact Stmt.of_mem_inside hP yes hyes t ht
  | .conditional _ yes (some no), h, t, ht => by
    have hyes : P yes := hP _ h _ List.mem_cons_self
    have hno : P no := hP _ h _ (List.mem_cons_of_mem _ (List.mem_singleton_self no))
    simp only [Stmt.inside, List.mem_append, List.mem_cons] at ht
    rcases ht with (rfl | ht) | (rfl | ht)
    · exact hyes
    · exact Stmt.of_mem_inside hP yes hyes t ht
    · exact hno
    · exact Stmt.of_mem_inside hP no hno t ht
  | .print _, _, _, ht => by cases ht
  | .return _ _, _, _, ht => by cases ht
  | .var _ _, _, _, ht => by cases ht
  | .while _ body, h, t, ht => by
    have hbody : P body := hP _ h _ (List.mem_singleton_self body)
    rcases List.mem_cons.1 ht with rfl | ht
    · exact hbody
    · exact Stmt.of_mem_inside hP body hbody t ht

/-- What passes from a statement to its parts holds of all statements in a list, if it holds of those of the list. -/
theorem Stmt.of_mem_insideAll {P : Stmt → Prop} (hP : ∀ s, P s → ∀ t ∈ s.parts, P t) : ∀ ss : List Stmt,
    (∀ s ∈ ss, P s) → ∀ t ∈ Stmt.insideAll ss, P t
  | [], _, _, ht => by cases ht
  | s :: ss, h, t, ht => by
    simp only [Stmt.insideAll, List.mem_append, List.mem_cons] at ht
    rcases ht with (rfl | ht) | ht
    · exact h _ List.mem_cons_self
    · exact Stmt.of_mem_inside hP s (h _ List.mem_cons_self) t ht
    · exact Stmt.of_mem_insideAll hP ss (fun u hu => h u (List.mem_cons_of_mem _ hu)) t ht
end

theorem Stmt.properAll_iff (ss : List Stmt) : Stmt.ProperAll ss ↔ ∀ s ∈ ss, s.Proper := by
  induction ss with
  | nil => simp [Stmt.ProperAll]
  | cons s ss ih => simp [Stmt.ProperAll, ih]

theorem Stmt.Proper.parts {s : Stmt} (h : s.Proper) : ∀ t ∈ s.parts, t.Proper := by
  cases s with
  | block body => exact (Stmt.properAll_iff body).1 h
  | function name params body => exact (Stmt.properAll_iff body).1 h
  | conditional test yes no =>
    cases no with
    | none => simpa [Stmt.parts] using h.2.1
    | some no => simpa [Stmt.parts] using ⟨h.2.1, h.2.2.2⟩
  | «while» test body => simpa [Stmt.parts] using h.2
  | _ => simp [Stmt.parts]

namespace ForLoop

variable {p : ForLoop}

theorem declared?_lowered (p : ForLoop) : p.lowered.declared? = none := by
  cases hs : p.start with
  | none => rw [lowered_of_none hs]; rfl
  | some s => rw [lowered_of_some hs]; rfl

/-- The body stands in the tree. -/
theorem inside_lowered {t : Stmt} (h : t ∈ p.body :: p.body.inside) : t ∈ p.lowered.inside := by
  have hround : t ∈ p.round :: p.round.inside := by
    unfold round
    cases p.step with
    | none => exact h
    | some e => exact List.mem_cons_of_mem _ (List.mem_append_left _ h)
  cases hs : p.start with
  | none => rwa [lowered_of_none hs]
  | some s =>
    rw [lowered_of_some hs]
    have hrepeated : t ∈ p.repeated.inside := hround
    simp [Stmt.inside, Stmt.insideAll, hrepeated]

end ForLoop

namespace Grammar

/-- A statement declares nothing where it stands. -/
theorem Form.declared?_build (form : Form .statement) (k : Nat) : (form.build k).1.declared? = none := by
  cases form with
  | «for» word clauses body => exact ForLoop.declared?_lowered ⟨_, _, _, _⟩
  | _ => rfl

mutual
theorem Form.mem_loops {r : Rank} : ∀ (form : Form r) {k : Nat} {p : ForLoop}, p ∈ form.loops k →
    p.body.declared? = none ∧ p.lowered ∈ (form.build k).1 :: (form.build k).1.inside
  | .function _ _ _ body _, k, p, h => (Forms.mem_loops body h).imp_right (List.mem_cons_of_mem _)
  | .var _, k, p, h => by cases h
  | .statement form, k, p, h => Form.mem_loops form h
  | .expression _ _, k, p, h => by cases h
  | .for _ clauses body, k, p, h => by
    rcases List.mem_cons.1 h with rfl | h
    · exact ⟨body.declared?_build _, List.mem_cons_self⟩
    · obtain ⟨hd, hm⟩ := Form.mem_loops body h
      exact ⟨hd, List.mem_cons_of_mem _ (ForLoop.inside_lowered (p := ⟨_, _, _, _⟩) hm)⟩
  | .if _ condition yes, k, p, h => by
    obtain ⟨hd, hm⟩ := Form.mem_loops yes h
    exact ⟨hd, List.mem_cons_of_mem _ (List.mem_append_left _ hm)⟩
  | .ifElse _ condition yes _ no, k, p, h => by
    rcases List.mem_append.1 h with h | h
    · obtain ⟨hd, hm⟩ := Form.mem_loops yes h
      exact ⟨hd, List.mem_cons_of_mem _ (List.mem_append_left _ hm)⟩
    · obtain ⟨hd, hm⟩ := Form.mem_loops no h
      exact ⟨hd, List.mem_cons_of_mem _ (List.mem_append_right _ hm)⟩
  | .print _ _ _, k, p, h => by cases h
  | .return _ _ _, k, p, h => by cases h
  | .while _ condition body, k, p, h => (Form.mem_loops body h).imp_right (List.mem_cons_of_mem _)
  | .block _ body _, k, p, h => (Forms.mem_loops body h).imp_right (List.mem_cons_of_mem _)

theorem Forms.mem_loops : ∀ (forms : Forms) {k : Nat} {p : ForLoop}, p ∈ forms.loops k →
    p.body.declared? = none ∧ p.lowered ∈ Stmt.insideAll (forms.build k).1
  | .nil, k, p, h => by cases h
  | .cons first rest, k, p, h => by
    rcases List.mem_append.1 h with h | h
    · exact (Form.mem_loops first h).imp_right (List.mem_append_left _)
    · exact (Forms.mem_loops rest h).imp_right (List.mem_append_right _)
end

end Grammar

namespace ForLoop

/-- The parts are those of a `for` statement in a text that the parser accepts. -/
def Accepted (p : ForLoop) : Prop := ∃ (fresh : Nat) (tokens : List Token) (d : Grammar.Forms),
  d.yield = parsedTokens tokens ∧ d.Limited ∧ d.ElseNearest ∧ p ∈ d.loops fresh

variable {p : ForLoop}

theorem proper_body (h : p.lowered.Proper) : p.body.Proper := by
  have hround : p.round.Proper := by
    cases hs : p.start with
    | none =>
      rw [lowered_of_none hs] at h
      exact h.2
    | some s =>
      rw [lowered_of_some hs] at h
      exact h.2.1.2
  unfold round at hround
  split at hround
  · exact hround.1
  · exact hround

namespace Accepted

theorem undeclared (h : p.Accepted) : p.body.declared? = none := by
  obtain ⟨fresh, tokens, d, -, -, -, hp⟩ := h
  exact (d.mem_loops hp).1

theorem declares (h : p.Accepted) : p.body.declares = false := by
  refine p.body.declares_of_proper ?_ h.undeclared
  obtain ⟨fresh, tokens, d, hy, hl, hn, hp⟩ := h
  have hproper := (parse_shaped fresh tokens).formed.proper
  rw [parse_of_nearest hy hl hn] at hproper
  exact proper_body (Stmt.of_mem_insideAll (fun _ h => h.parts) _ ((Stmt.properAll_iff _).1 hproper) _
    (d.mem_loops hp).2)

theorem declares_round (h : p.Accepted) : p.round.declares = false := by
  unfold round
  split
  · rfl
  · exact h.declares

end Accepted

open Classical in
/-- The blocks of the bodies and steps of the loops. -/
noncomputable def isRound (loops : List ForLoop) (ss : List Stmt) : Bool :=
  decide (∃ p ∈ loops, ∃ e, p.step = some e ∧ ss = [p.body, .expression e])

variable {loops : List ForLoop}

theorem isRound_iff {ss : List Stmt} :
    isRound loops ss = true ↔ ∃ p ∈ loops, ∃ e, p.step = some e ∧ ss = [p.body, .expression e] := by
  simp [isRound]

theorem isDirect_isRound (hp : p ∈ loops) : p.IsDirect (isRound loops) where
  step e he := isRound_iff.2 ⟨p, hp, e, he, rfl⟩
  start s _ := by simp [isRound, repeated]

theorem undeclaring_isRound (h : ∀ p ∈ loops, p.Accepted) : Undeclaring (isRound loops) := by
  intro ss hss s hs
  obtain ⟨p, hp, e, -, rfl⟩ := isRound_iff.1 hss
  rcases List.mem_cons.1 hs with rfl | hs
  · exact (h p hp).undeclared
  · obtain rfl := List.mem_singleton.1 hs
    rfl

end ForLoop

/-! ## The frames of a loop -/

/-- A block that declares nothing leaves its frame empty. -/
theorem left_of_block {ss : List Stmt} (h : ss.any Stmt.declares = false) (n : Nat) (m : Machine) :
    let left := (⟨n, .exec (.block ss), m⟩ : Moment).left
    m.store.frames.size < left.store.frames.size ∧ ∀ x, left.store.holds x m.store.frames.size = false := by
  intro left
  have hlater := ((Territory.all.confinesCalls n).execAll n ss (m := m.opened m.here) ⟨trivial, trivial⟩).leaves.later
  rw [h] at hlater
  have hlt : m.store.frames.size < (m.opened m.here).store.frames.size := by
    rw [Machine.opened, Store.size_add]
    exact Nat.lt_succ_self _
  refine ⟨Nat.lt_of_lt_of_le hlt hlater.size, fun x => ?_⟩
  have hnames := hlater.names _ hlt (by simp [target]) x
  rw [Machine.opened, Store.holds_add, Store.holds_new] at hnames
  exact hnames

/-- **The frame of a block that declares nothing never holds a name**, at any moment of the session. -/
theorem Session.Happens.block_empty {sink : Sink} {clock : Nat → Number} {texts : List Text} {n : Nat} {ss : List Stmt}
    {m : Machine} (h : (start sink clock).Happens texts ⟨n, .exec (.block ss), m⟩) (hs : ss.any Stmt.declares = false)
    (x : String) : ((start sink clock).after texts).machine.store.holds x m.store.frames.size = false ∧
      ∀ c, (start sink clock).Happens texts c → c.machine.store.holds x m.store.frames.size = false := by
  obtain ⟨hlt, hempty⟩ := left_of_block hs n m
  have hend : ((start sink clock).after texts).machine.store.holds x m.store.frames.size = false := by
    rw [h.names_kept (Nat.le_refl _) hlt x]
    exact hempty x
  refine ⟨hend, fun c hc => ?_⟩
  by_contra hx
  rw [hc.holds_kept (by simpa using hx)] at hend
  cases hend

def Task.isLoop : Task → Bool
  | .loop _ _ _ => true
  | _ => false

/-- The loop goes into its next round. -/
def NextRound (c c' : Moment) : Prop := Enters c c' ∧ c.task.isLoop = true ∧ c'.task.isLoop = true

/-- **All rounds are in one frame**, and no round adds a name to a frame that is there. -/
theorem keeps_rounds {n : Nat} {e : Expr} {s : Stmt} (hs : s.declares = false) {c c' : Moment}
    (h : Relation.ReflTransGen NextRound c c') {k : Nat} (hb : c.bound = n) (ht : c.task = .loop e s k) :
    Territory.all.Leaves false c.machine c'.machine ∧ c'.bound = n ∧ ∃ j, c'.task = .loop e s j := by
  induction h with
  | refl => exact ⟨.refl trivial, hb, k, ht⟩
  | @tail d d' _ hd ih =>
    obtain ⟨hkeeps, hb, j, ht⟩ := ih
    obtain ⟨he, -, hl⟩ := hd
    obtain ⟨n, task, m⟩ := d
    cases hb
    cases ht
    cases he with
    | loopTest => cases hl
    | loopBody _ _ => cases hl
    | @loopAgain _ _ _ _ j v m₁ m₂ hr _ hr' =>
      have htest := (((Territory.all.confinesCalls n).eval e (m := m) ⟨trivial, trivial⟩).of_run hr).1
      have hround := (((Territory.all.confinesCalls n).exec n s m₁ ⟨trivial, trivial⟩).of_run hr').1
      rw [hs] at hround
      exact ⟨(hkeeps.trans htest).trans hround, rfl, j, rfl⟩

/-- A variable is declared in a frame that is new. -/
theorem names_of_var {n : Nat} {name : Token} {o : Option Expr} {m m₁ : Machine}
    (h : (Stmt.var name o).exec (invoke n) n (m.opened m.here) = (.value (), m₁)) :
    m₁.here = m.store.frames.size ∧ m₁.store.chain m.store.frames.size = m.store.frames.size :: m.store.chain m.here ∧
      m.store.frames.size < m₁.store.frames.size ∧
      ∀ x, m₁.store.holds x m.store.frames.size = true ↔ x = name.lexeme := by
  have hlt : m.store.frames.size < (m.opened m.here).store.frames.size := by
    rw [Machine.opened, Store.size_add]
    exact Nat.lt_succ_self _
  have hstays := (Territory.all.confinesCalls n).optionalEval (m := m.opened m.here) ⟨trivial, trivial⟩ o
  have hexec : (Stmt.var name o).exec (invoke n) n =
      optionalEval (invoke n) o >>= fun v => Run.define name.lexeme v := rfl
  rw [hexec] at h
  rcases hr : optionalEval (invoke n) o (m.opened m.here) with ⟨v | v | f | _, m₀⟩
  · obtain ⟨hk, -⟩ := hstays.of_run hr
    have hhere : m₀.here = m.store.frames.size := hk.here
    have hlt₀ : m.store.frames.size < m₀.store.frames.size := Nat.lt_of_lt_of_le hlt hk.later.size
    have hempty : ∀ x, m₀.store.holds x m.store.frames.size = false := fun x => by
      rw [hk.later.names _ hlt (by simp [target]) x, Machine.opened, Store.holds_add, Store.holds_new]
    rw [Run.bind_of_value hr] at h
    obtain rfl : m₀.define m₀.here name.lexeme v = m₁ := (Prod.mk.inj h).2
    rw [hhere, Machine.define]
    refine ⟨hhere, ?_, ?_, fun x => ?_⟩
    · rw [Store.chain_define, hk.later.chain _ hlt]
      exact m.store.chain_add_new m.here
    · rwa [Store.size_define]
    · rw [Store.holds_define _ _ _ _ hlt₀, hempty]
      simp
  all_goals
    rw [Run.bind_def, hr] at h
    cases h

/-- The first round is about to start. -/
def ForLoop.looping (p : ForLoop) (n : Nat) (m : Machine) : Moment :=
  ⟨n, .loop (p.test.getD (.literal (.bool true))) p.round n, m⟩

/-- The run of a `for` statement comes to the rounds of its loop, when its initializer has run. -/
theorem ForLoop.reaches_rounds {p : ForLoop} {s : Stmt} (hs : p.start = some s) {n : Nat} {m m₁ : Machine}
    (h : s.exec (invoke n) n (m.opened m.here) = (.value (), m₁)) {c : Moment}
    (hc : Relation.ReflTransGen NextRound (p.looping n m₁) c) : Reaches ⟨n, .exec p.lowered, m⟩ c := by
  have hloop : Reaches ⟨n, .exec p.lowered, m⟩ (p.looping n m₁) := by
    rw [lowered_of_some hs]
    exact .head .block (.head (.tail h) (.head .head (.single .while)))
  exact hloop.trans (hc.lift id fun _ _ h => h.1)

/-- **Loops run directly.**  The `for` statements of an accepted text, one for each word `for`, stand in its tree.
Take any that the parser accepts, all those of a text or some of them, and let them run as the loops they say: one
frame exactly if there is an initializer, which is run in it once; then, in this frame or in the one that is there,
test, body and step in turn, until the test fails or a part does not end with a value.  That is what their trees do
when the blocks around body and step make no frame, while all else runs as it did; and in every session, for whatever
texts, the outcome and the bytes are those of the trees as they are.  Moreover the frame that such a block makes never
holds a name, and all rounds of a loop that declares a variable are in one frame, in which this variable is the only
name. -/
theorem for_loops_run_directly :
    (∀ (fresh : Nat) (tokens : List Token), (parse fresh tokens).faults = [] →
      ∃ d : Grammar.Forms, d.yield = parsedTokens tokens ∧ (d.build fresh).1 = (parse fresh tokens).statements ∧
        (d.loops fresh).length = Grammar.forWords (parsedTokens tokens) ∧
        ∀ p ∈ d.loops fresh, p.Accepted ∧ p.lowered ∈ Stmt.insideAll (parse fresh tokens).statements) ∧
    (∀ loops : List ForLoop, (∀ p ∈ loops, p.Accepted) →
      let bare := ForLoop.isRound loops
      (∀ p ∈ loops, ∀ (inv : Invoke) (n : Nat), p.lowered.execBare bare inv n = p.run bare inv n) ∧
        (∀ s : Stmt, NoneBare bare (s :: s.inside) → ∀ (inv : Invoke) (n : Nat), s.execBare bare inv n = s.exec inv n) ∧
        ∀ (sink : Sink) (clock : Nat → Number) (texts : List Text) (t : Text),
          let ran := ((Session.start sink clock).after texts).run t.bound t.source
          let ran' := ((Session.start sink clock).afterBare bare texts).runBare bare t.bound t.source
          ran'.1 = ran.1 ∧ ran'.2.machine.sink = ran.2.machine.sink) ∧
    ∀ p : ForLoop, p.Accepted →
      (∀ (e : Expr), p.step = some e → ∀ (sink : Sink) (clock : Nat → Number) (texts : List Text) (n : Nat)
          (m : Machine),
        (Session.start sink clock).Happens texts ⟨n, .exec p.round, m⟩ → ∀ x,
          ((Session.start sink clock).after texts).machine.store.holds x m.store.frames.size = false ∧
            ∀ c, (Session.start sink clock).Happens texts c → c.machine.store.holds x m.store.frames.size = false) ∧
      ∀ (name : Token) (o : Option Expr), p.start = some (.var name o) → ∀ (n : Nat) (m m₁ : Machine),
        (Stmt.var name o).exec (invoke n) n (m.opened m.here) = (.value (), m₁) →
        let frame := m.store.frames.size
        ∀ c, Relation.ReflTransGen NextRound (p.looping n m₁) c →
          Reaches ⟨n, .exec p.lowered, m⟩ c ∧ c.machine.here = frame ∧
            c.machine.store.chain frame = frame :: m.store.chain m.here ∧
            ∀ x, c.machine.store.holds x frame = true ↔ x = name.lexeme := by
  refine ⟨fun fresh tokens h => ?_, fun loops hloops => ⟨fun p hp inv n => ?_, fun s hs inv n => ?_,
    fun sink clock texts t => ?_⟩, fun p hp => ⟨fun e he sink clock texts n m h x => ?_, ?_⟩⟩
  · obtain ⟨d, hy, hl, hn⟩ := exists_nearest_of_faults h
    rw [parse_of_nearest hy hl hn]
    have hlength : (d.loops fresh).length = Grammar.forWords (parsedTokens tokens) := by rw [← hy, d.length_loops]
    exact ⟨d, hy, rfl, hlength, fun p hp => ⟨⟨fresh, tokens, d, hy, hl, hn, hp⟩, (d.mem_loops hp).2⟩⟩
  · exact ForLoop.execBare_lowered inv n (ForLoop.isDirect_isRound hp)
  · exact s.execBy_eq_exec inv n rfl hs
  · exact Session.runBare_eq (ForLoop.undeclaring_isRound hloops) sink clock texts t
  · have hround : p.round = .block [p.body, .expression e] := by rw [ForLoop.round, he]
    rw [hround] at h
    exact h.block_empty (by simp [hp.declares, Stmt.declares]) x
  · intro name o hs n m m₁ h frame c hc
    obtain ⟨hhere, hchain, hlt, hnames⟩ := names_of_var h
    obtain ⟨hk, -, -⟩ := keeps_rounds hp.declares_round hc rfl rfl
    refine ⟨ForLoop.reaches_rounds hs h hc, hk.here.trans hhere, (hk.later.chain _ hlt).trans hchain, fun x => ?_⟩
    rw [hk.later.names _ hlt (by simp [target]) x]
    exact hnames x

-- The function of the first round sees the variable as the last round has left it.
example :
    let bare : List Stmt → Bool := fun ss => ss.all fun s => s.declared?.isNone
    let text := "var f; for (var i = 0; i < 2; i = i + 1) if (i == 0) { fun g() { return i; } f = g; } print f() == 2;"
    let ran := (Session.start .unlimited fun _ => .ofNat 0).run 9 text
    let ran' := (Session.start .unlimited fun _ => .ofNat 0).runBare bare 9 text
    (ran.2.machine.sink.textFrom 0 = "true\n" ∧ ran.2.machine.store.frames.size = 6) ∧
      ran'.2.machine.sink.textFrom 0 = "true\n" ∧ ran'.2.machine.store.frames.size = 4 := by
  decide +kernel

end Scriptlet
