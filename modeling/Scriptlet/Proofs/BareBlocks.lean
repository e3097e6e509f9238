import Mathlib
import Scriptlet.Proofs.Agreement
import Scriptlet.Proofs.Manners

/-!
# Blocks without frames

The blocks that a test picks out, the bare ones, make no frame, and what is in them runs in the frame around them
(`Stmt.execBare`).  So a bare block does not count in a distance (`Surroundings.framed`).

A `for` statement stands for a tree in which its body and its step are in a block of their own.  When that block is
bare, the tree runs as the loop that the statement says (`ForLoop.execBare_lowered`): one frame if there is an
initializer, and test, body and step in turn in that same frame.
-/
namespace Scriptlet

/-! ## Evaluation -/

section

variable (bare : List Stmt → Bool)

/-- A statement without the frames of the bare blocks. -/
abbrev Stmt.execBare (invoke : Invoke) (rounds : Nat) (s : Stmt) : Run Unit := s.execBy (.without bare) invoke rounds

/-- The scope has a frame of its own. -/
def LocalScope.framed : LocalScope → Bool
  | block body => !bare body
  | function _ => true

/-- The scopes around a place that have frames. -/
def Surroundings.framed (around : Surroundings) : Surroundings := around.filter (·.1.framed bare)

/-- The places of a program, each in the scopes around it that have frames. -/
def framedPlaces (program : List Stmt) : List ScopedOccurrence :=
  (programPlaces program).map fun p => (p.1.framed bare, p.2)

/-- Runs a text; a distance counts the frames that it leads through. -/
def Session.runBare (bound : Nat) (source : String) (s : Session) : Outcome × Session :=
  let a := analyze s.fresh source
  if a.faults.isEmpty then
    let entries := (framedPlaces bare a.statements).filterMap ScopedOccurrence.entry?
    let ended := interpretBy (.without bare) bound a.statements
      { s.machine with bindings := s.machine.bindings.add entries }
    (ended.1, ⟨ended.2, a.fresh⟩)
  else (.staticFaults a.faults, { s with fresh := a.fresh })

/-- The session when the texts have been run. -/
def Session.afterBare (s : Session) (texts : List Text) : Session :=
  texts.foldl (fun s t => (s.runBare bare t.bound t.source).2) s

end

/-! ## Loops -/

/-- The parts of a `for` statement. -/
structure ForLoop where
  start : Option Stmt
  test : Option Expr
  step : Option Expr
  body : Stmt

namespace ForLoop

/-- The tree that the statement stands for. -/
def lowered (p : ForLoop) : Stmt := Grammar.loopOf p.start p.test p.step p.body

/-- What that tree runs in a round: the body, in a block with the step if there is one. -/
def round (p : ForLoop) : Stmt :=
  match p.step with
  | some e => .block [p.body, .expression e]
  | none => p.body

/-- The loop in that tree. -/
def repeated (p : ForLoop) : Stmt := .while (p.test.getD (.literal (.bool true))) p.round

section

variable (bare : List Stmt → Bool) (invoke : Invoke) (n : Nat)

/-- **The rounds of the loop**: while the test holds, which is true when it is missing, the body and then the step if
there is one.  Whatever ends a part otherwise than with a value ends the loop. -/
def rounds (p : ForLoop) : Nat → Run Unit
  | 0 => Run.spent
  | k + 1 => do
    let v ← p.test.elim (pure (.bool true)) (Expr.eval invoke)
    if v.truthy then
      p.body.execBare bare invoke n
      let _ ← optionalEval invoke p.step
      p.rounds k
    else return

/-- **The loop, run directly**: one frame exactly if there is an initializer, which is run in it once, and the rounds
in the same frame, or else in the one that is there. -/
def run (p : ForLoop) : Run Unit :=
  match p.start with
  | none => p.rounds bare invoke n n
  | some s => do
    let frame ← Run.newFrameHere
    Run.within frame do
      s.execBare bare invoke n
      p.rounds bare invoke n n

end

/-- The block of the body and the step is bare, and that of the initializer is not. -/
structure IsDirect (p : ForLoop) (bare : List Stmt → Bool) : Prop where
  step : ∀ e, p.step = some e → bare [p.body, .expression e] = true
  start : ∀ s, p.start = some s → bare [s, p.repeated] = false

end ForLoop

namespace Run

theorem bind_assoc {α β γ : Type} (r : Run α) (f : α → Run β) (g : β → Run γ) :
    (r >>= f) >>= g = r >>= fun a => f a >>= g := by
  funext m
  simp only [bind_def]
  rcases r m with ⟨_ | _ | _ | _, m'⟩ <;> rfl

theorem bind_unit (r : Run Unit) : (r >>= fun _ => pure ()) = r := by
  funext m
  rw [bind_def]
  rcases r m with ⟨_ | _ | _ | _, m'⟩ <;> rfl

end Run

theorem Expr.evalBy_without (bare : List Stmt → Bool) (inv : Invoke) (e : Expr) :
    e.evalBy (.without bare) inv = e.eval inv := e.evalBy_eq_eval inv rfl

namespace ForLoop

variable {bare : List Stmt → Bool} {p : ForLoop} (invoke : Invoke) (n : Nat)

/-- One round of the tree's loop: the body, and the step behind it. -/
theorem execBare_round (h : p.IsDirect bare) (k : Run Unit) : (p.round.execBare bare invoke n >>= fun _ => k) =
    p.body.execBare bare invoke n >>= fun _ => optionalEval invoke p.step >>= fun _ => k := by
  unfold round
  cases hs : p.step with
  | none => rfl
  | some e =>
    have hb : (Manner.without bare).bare [p.body, .expression e] = true := h.step e hs
    simp only [Stmt.execBy, Stmt.execAllBy, hb, if_true, optionalEval, Run.bind_assoc, Expr.evalBy_without]
    rfl

theorem execBare_repeated (h : p.IsDirect bare) : p.repeated.execBare bare invoke n = p.rounds bare invoke n n := by
  have hrounds : ∀ k, loop ((p.test.getD (.literal (.bool true))).eval invoke) (p.round.execBare bare invoke n) k =
      p.rounds bare invoke n k := by
    intro k
    induction k with
    | zero => rfl
    | succ k ih =>
      rw [loop_succ, rounds, ih]
      simp only [execBare_round invoke n h]
      cases p.test <;> rfl
  rw [Stmt.execBare, repeated, Stmt.execBy, Expr.evalBy_without]
  exact hrounds n

theorem lowered_of_none (h : p.start = none) : p.lowered = p.repeated := by
  rw [lowered, h, repeated, round]
  cases p.step <;> rfl

theorem lowered_of_some {s : Stmt} (h : p.start = some s) : p.lowered = .block [s, p.repeated] := by
  rw [lowered, h, repeated, round]
  cases p.step <;> rfl

/-- **The tree of a `for` statement runs as the loop**, when the block of its body and step is bare. -/
theorem execBare_lowered (h : p.IsDirect bare) : p.lowered.execBare bare invoke n = p.run bare invoke n := by
  have hrepeated := execBare_repeated invoke n h
  unfold run
  cases hs : p.start with
  | none => rw [lowered_of_none hs, hrepeated]
  | some s =>
    have hb : (Manner.without bare).bare [s, p.repeated] = false := h.start s hs
    simp only [lowered_of_some hs, Stmt.execBare, Stmt.execBy, Stmt.execAllBy, hb, hrepeated, Run.bind_unit,
      Bool.false_eq_true, if_false]

end ForLoop

/-! ## Distances -/

/-- No statement of a bare block declares. -/
def Undeclaring (bare : List Stmt → Bool) : Prop := ∀ ss, bare ss = true → ∀ s ∈ ss, s.declared? = none

variable {bare : List Stmt → Bool}

theorem LocalScope.names_of_bare (h : Undeclaring bare) {scope : LocalScope}
    (hs : scope.framed bare = false) (i : Nat) :
    scope.names i = [] := by
  cases scope with
  | function f => cases hs
  | block body =>
    have hb : bare body = true := by simpa [framed] using hs
    simp only [names, params, LocalScope.body, List.map_nil, List.nil_append, List.filterMap_eq_nil_iff]
    exact fun s hm => h body hb s (List.mem_of_mem_take hm)

/-- **A distance in frames**: the innermost scope that declares the name has a frame, and the frames inside it are
counted. -/
theorem Surroundings.distance?_framed (h : Undeclaring bare) (x : String) : ∀ around : Surroundings,
    (around.framed bare).distance? x =
        (around.distance? x).map (fun d => ((around.take d).countP fun q => q.1.framed bare)) ∧
      ∀ d, around.distance? x = some d → ∃ q, around[d]? = some q ∧ q.1.framed bare = true
  | [] => ⟨rfl, fun d hd => by cases hd⟩
  | q :: outer => by
    obtain ⟨ih, ihd⟩ := distance?_framed h x outer
    unfold distance? framed at *
    rw [List.findIdx?_cons, List.filter_cons]
    by_cases hx : x ∈ namesBefore q
    · -- a scope that declares is no bare block
      have hq : q.1.framed bare = true := by
        by_contra hq
        rw [namesBefore, LocalScope.names_of_bare h (by simpa using hq)] at hx
        cases hx
      refine ⟨by simp [hx, hq, List.findIdx?_cons], fun d hd => ⟨q, ?_, hq⟩⟩
      simp only [hx, decide_true, if_true, Option.some.injEq] at hd
      simp [← hd]
    · refine ⟨?_, fun d hd => ?_⟩
      · by_cases hq : q.1.framed bare = true
        · simp only [hq, if_true, List.findIdx?_cons, hx, decide_false, Bool.false_eq_true, if_false, ih,
            Option.map_map]
          congr 1
          funext d
          simp [hq]
        · simp only [hq, Bool.false_eq_true, if_false, hx, decide_false, ih, Option.map_map]
          congr 1
          funext d
          simp [hq]
      · simp only [hx, decide_false, Bool.false_eq_true, if_false, Option.map_eq_some_iff] at hd
        obtain ⟨d, hd, rfl⟩ := hd
        exact ihd d hd

end Scriptlet
