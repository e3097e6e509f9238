import Mathlib
import Scriptlet.Eval

/-!
# Runs by their parts

What a step on the store can do, sequences, loops and conditions as runs of their parts, and what operators give.
-/
namespace Scriptlet

theorem Run.bind_def {α β : Type} (r : Run α) (f : α → Run β) (m : Machine) : (r >>= f) m = match r m with
    | (.value a, m) => f a m
    | (.returned v, m) => (.returned v, m)
    | (.failed e, m) => (.failed e, m)
    | (.spent, m) => (.spent, m) := rfl

/-- What follows a value. -/
theorem Run.bind_of_value {α β : Type} {r : Run α} {k : α → Run β} {a : α} {m m₁ : Machine} (h : r m = (.value a, m₁)) :
    (r >>= k) m = k a m₁ := by
  rw [Run.bind_def, h]

theorem Run.ite_apply {α : Type} (b : Prop) [Decidable b] (r r' : Run α) (m : Machine) :
    (if b then r else r') m = if b then r m else r' m := by
  split <;> rfl

/-- Cells whose values for two names are related hold these names alike. -/
theorem Cells.holds_eq_of_rel {R : Value → Value → Prop} {cells cells' : Cells} {x y : String}
    (h : Option.Rel R (cells.lookup x) (cells'.lookup y)) : cells.holds x = cells'.holds y := by
  rw [holds_eq_isSome, holds_eq_isSome]
  generalize cells.lookup x = o, cells'.lookup y = o' at h ⊢
  cases h <;> rfl

/-- A frame holds the names that have a value in it. -/
theorem Store.holds_iff_lookup {s : Store} {f : FrameId} {x : String} :
    s.holds x f = true ↔ ∃ v, (s.cells f).lookup x = some v := by
  rw [holds, Cells.holds_eq_isSome, Option.isSome_iff_exists]

theorem Store.holds_of_nearest? {s : Store} {f h : FrameId} {x : String} (hh : s.nearest? f x = some h) :
    s.holds x h = true := List.find?_some hh

theorem Store.holds_of_holderAt? {s : Store} {f h : FrameId} {d : Nat} {x : String} (hh : s.holderAt? f d x = some h) :
    s.holds x h = true := (Option.filter_eq_some_iff.1 hh).2

theorem Machine.holds_of_holder? (m : Machine) {id : Nat} {x : String} {f : FrameId} (h : m.holder? id x = some f) :
    m.store.holds x f = true := by
  unfold Machine.holder? at h
  split at h
  · exact Store.holds_of_holderAt? h
  · exact Store.holds_of_nearest? h

theorem lookUp_cases (id : Nat) (name : Token) (m : Machine) :
    (∃ f v, m.holder? id name.lexeme = some f ∧ (m.store.cells f).lookup name.lexeme = some v ∧
      Run.lookUp id name m = (.value v, m)) ∨
    (m.holder? id name.lexeme = none ∧ Run.lookUp id name m = (.failed (Store.undefined name), m)) := by
  unfold Run.lookUp Store.read
  rcases hf : m.holder? id name.lexeme with _ | f
  · exact .inr ⟨rfl, rfl⟩
  · obtain ⟨v, hv⟩ := Store.holds_iff_lookup.1 (m.holds_of_holder? hf)
    exact .inl ⟨f, v, rfl, hv, by simp only [Option.bind_some, hv]; rfl⟩

theorem assign_cases (id : Nat) (name : Token) (v : Value) (m : Machine) :
    (∃ f, m.holder? id name.lexeme = some f ∧ Run.assign id name v m = (.value (), m.define f name.lexeme v)) ∨
    (m.holder? id name.lexeme = none ∧ Run.assign id name v m = (.failed (Store.undefined name), m)) := by
  unfold Run.assign
  rcases m.holder? id name.lexeme with _ | f
  · exact .inr ⟨rfl, rfl⟩
  · exact .inl ⟨f, rfl, rfl⟩

theorem write_cases (s : Sink) (text : String) : ∃ bytes, s.write text = (.ok (), { s with bytes }) ∨
    s.write text = (.error (.output .sinkFull), { s with bytes }) := by
  unfold Sink.write
  split
  · exact ⟨_, .inl rfl⟩
  · dsimp only
    split
    · exact ⟨_, .inl rfl⟩
    · exact ⟨_, .inr rfl⟩

theorem print_cases (text : String) (m : Machine) : ∃ sink : Sink, sink.flushable = m.sink.flushable ∧
    (Run.print text m = (.value (), { m with sink }) ∨
      Run.print text m = (.failed (.output .sinkFull), { m with sink })) := by
  unfold Run.print
  obtain ⟨bytes, hw | hw⟩ := write_cases m.sink (text ++ "\n") <;> rw [hw]
  · exact ⟨{ m.sink with bytes }, rfl, .inl rfl⟩
  · exact ⟨{ m.sink with bytes }, rfl, .inr rfl⟩

theorem loop_succ (test : Run Value) (body : Run Unit) (k : Nat) : loop test body (k + 1) =
    test >>= fun v => if v.truthy = true then body >>= fun _ => loop test body k else pure () := by
  funext m
  rw [loop, Run.bind_def]
  rcases test m with ⟨v | v | f | _, m'⟩
  · dsimp only
    rw [Run.ite_apply]
    split
    · rw [Run.bind_def]
      rcases body m' with ⟨u | v | f | _, m''⟩ <;> rfl
    · rfl
  all_goals rfl

/-- What is run where the test fails. -/
def otherwise (inv : Invoke) (k : Nat) : Option Stmt → Run Unit
  | none => pure ()
  | some t => t.exec inv k

theorem exec_conditional (inv : Invoke) (k : Nat) (e : Expr) (yes : Stmt) (no : Option Stmt) :
    (Stmt.conditional e yes no).exec inv k =
      e.eval inv >>= fun v => if v.truthy = true then yes.exec inv k else otherwise inv k no := by
  cases no <;> rfl

theorem exec_cons (inv : Invoke) (k : Nat) (s : Stmt) (ss : List Stmt) :
    Stmt.execAll inv k (s :: ss) = s.exec inv k >>= fun _ => Stmt.execAll inv k ss := rfl

/-- Two lists of statements run one after the other. -/
theorem execAll_append (inv : Invoke) (k : Nat) (ts : List Stmt) : ∀ ss : List Stmt,
    Stmt.execAll inv k (ss ++ ts) = Stmt.execAll inv k ss >>= fun _ => Stmt.execAll inv k ts
  | [] => rfl
  | s :: ss => by
    funext m
    rw [List.cons_append, exec_cons, exec_cons, execAll_append inv k ts ss]
    simp only [Run.bind_def]
    rcases s.exec inv k m with ⟨_ | _ | _ | _, m'⟩ <;> rfl

/-! ## Operators -/

/-- The frame that a function closes over. -/
def Value.frame? : Value → Option FrameId
  | .callable (.closure _ _ frame) => some frame
  | _ => none

theorem Value.frame?_of_plain {v : Value} (h : ∀ f, v ≠ .callable f) : v.frame? = none := by
  unfold frame?
  split
  · exact absurd rfl (h _)
  · rfl

/-- The run has a value that is no function, or fails, and leaves the machine alone. -/
def Neutral (r : Run Value) : Prop := (∃ v, (∀ f, v ≠ .callable f) ∧ r = pure v) ∨ ∃ f, r = Run.fail f

theorem neutral_bool (b : Bool) : Neutral (pure (.bool b)) := .inl ⟨.bool b, nofun, rfl⟩

theorem neutral_number (x : Number) : Neutral (pure (.number x)) := .inl ⟨.number x, nofun, rfl⟩

theorem neutral_fail (f : Fault) : Neutral (Run.fail f) := .inr ⟨f, rfl⟩

theorem neutral_applyUnary (t : Token) (v : Value) : Neutral (applyUnary t v) := by
  unfold applyUnary
  split
  · exact neutral_bool _
  · exact neutral_number _
  · exact neutral_fail _

theorem neutral_applyArithmetic (t : Token) (x y : Number) : Neutral (applyArithmetic t x y) := by
  unfold applyArithmetic
  split
  iterate 3 exact neutral_number _
  iterate 4 exact neutral_bool _
  exact neutral_fail _

theorem neutral_applyBinary (t : Token) (v w : Value) : Neutral (applyBinary t v w) := by
  unfold applyBinary
  split
  · exact neutral_bool _
  · exact neutral_bool _
  · split
    · exact neutral_number _
    · exact .inl ⟨.text _, nofun, rfl⟩
    · exact neutral_fail _
  · split
    · exact neutral_applyArithmetic t _ _
    · exact neutral_fail _

end Scriptlet
