import Mathlib
import Scriptlet.Session
import Scriptlet.Tree.Occurrence

/-!
# The moments of a run

A run is a tree of smaller runs: of the parts of an expression, of the statements of a block, of the body of a function
that is called.  `Enters` tells which runs a run starts, and on which machine; what a part is started on is what the
parts before it have left.  The moments of a run are the runs it comes to in this way (`Reaches`).
-/
namespace Scriptlet

/-- What is run. -/
inductive Task where
  | eval (e : Expr)
  | evalAll (es : List Expr)
  | exec (s : Stmt)
  | execAll (ss : List Stmt)
  /-- A loop with so many rounds to go at most. -/
  | loop (test : Expr) (body : Stmt) (rounds : Nat)
  | call (f : Callable) (arguments : List Value)

/-- The start of a run: what is run, on which machine, and the bound on the calls and rounds in it. -/
structure Moment where
  bound : Nat
  task : Task
  machine : Machine

/-- The machine in a new frame inside the given one. -/
def Machine.opened (m : Machine) (outer : FrameId) : Machine :=
  { m with store := (m.store.add (some outer)).2, here := m.store.frames.size }

/-- The machine as the body of a function finds it: in a new frame with the parameters. -/
def Machine.called (m : Machine) (f : Function) (frame : FrameId) (arguments : List Value) : Machine :=
  (bindParams m.store.frames.size f.params arguments (m.opened frame)).2

/-- **The run starts the other one on its way.** -/
inductive Enters : Moment → Moment → Prop
  | assign {n m id name e} : Enters ⟨n, .eval (.assign id name e), m⟩ ⟨n, .eval e, m⟩
  | group {n m e} : Enters ⟨n, .eval (.group e), m⟩ ⟨n, .eval e, m⟩
  | unary {n m t e} : Enters ⟨n, .eval (.unary t e), m⟩ ⟨n, .eval e, m⟩
  | left {n m l t r} : Enters ⟨n, .eval (.binary l t r), m⟩ ⟨n, .eval l, m⟩
  | right {n m l t r v m'} (h : l.eval (invoke n) m = (.value v, m')) :
      Enters ⟨n, .eval (.binary l t r), m⟩ ⟨n, .eval r, m'⟩
  | logicalLeft {n m l t r} : Enters ⟨n, .eval (.logical l t r), m⟩ ⟨n, .eval l, m⟩
  | logicalRight {n m l t r v m'} (h : l.eval (invoke n) m = (.value v, m')) (hs : settles t v = false) :
      Enters ⟨n, .eval (.logical l t r), m⟩ ⟨n, .eval r, m'⟩
  | callee {n m e t es} : Enters ⟨n, .eval (.call e t es), m⟩ ⟨n, .eval e, m⟩
  | arguments {n m e t es v m'} (h : e.eval (invoke n) m = (.value v, m')) :
      Enters ⟨n, .eval (.call e t es), m⟩ ⟨n, .evalAll es, m'⟩
  | apply {n m e t es f vs m₁ m₂} (h : e.eval (invoke n) m = (.value (.callable f), m₁))
      (h' : Expr.evalAll (invoke n) es m₁ = (.value vs, m₂)) (ha : vs.length = f.arity) :
      Enters ⟨n, .eval (.call e t es), m⟩ ⟨n, .call f vs, m₂⟩
  | first {n m e es} : Enters ⟨n, .evalAll (e :: es), m⟩ ⟨n, .eval e, m⟩
  | others {n m e es v m'} (h : e.eval (invoke n) m = (.value v, m')) :
      Enters ⟨n, .evalAll (e :: es), m⟩ ⟨n, .evalAll es, m'⟩
  | block {n m ss} : Enters ⟨n, .exec (.block ss), m⟩ ⟨n, .execAll ss, m.opened m.here⟩
  | expression {n m e} : Enters ⟨n, .exec (.expression e), m⟩ ⟨n, .eval e, m⟩
  | test {n m e yes no} : Enters ⟨n, .exec (.conditional e yes no), m⟩ ⟨n, .eval e, m⟩
  | yes {n m e yes no v m'} (h : e.eval (invoke n) m = (.value v, m')) (hv : v.truthy = true) :
      Enters ⟨n, .exec (.conditional e yes no), m⟩ ⟨n, .exec yes, m'⟩
  | no {n m e yes no v m'} (h : e.eval (invoke n) m = (.value v, m')) (hv : v.truthy = false) :
      Enters ⟨n, .exec (.conditional e yes (some no)), m⟩ ⟨n, .exec no, m'⟩
  | print {n m e} : Enters ⟨n, .exec (.print e), m⟩ ⟨n, .eval e, m⟩
  | return {n m t e} : Enters ⟨n, .exec (.return t (some e)), m⟩ ⟨n, .eval e, m⟩
  | initializer {n m t e} : Enters ⟨n, .exec (.var t (some e)), m⟩ ⟨n, .eval e, m⟩
  | while {n m e s} : Enters ⟨n, .exec (.while e s), m⟩ ⟨n, .loop e s n, m⟩
  | loopTest {n m e s k} : Enters ⟨n, .loop e s (k + 1), m⟩ ⟨n, .eval e, m⟩
  | loopBody {n m e s k v m'} (h : e.eval (invoke n) m = (.value v, m')) (hv : v.truthy = true) :
      Enters ⟨n, .loop e s (k + 1), m⟩ ⟨n, .exec s, m'⟩
  | loopAgain {n m e s k v m₁ m₂} (h : e.eval (invoke n) m = (.value v, m₁)) (hv : v.truthy = true)
      (h' : s.exec (invoke n) n m₁ = (.value (), m₂)) : Enters ⟨n, .loop e s (k + 1), m⟩ ⟨n, .loop e s k, m₂⟩
  | head {n m s ss} : Enters ⟨n, .execAll (s :: ss), m⟩ ⟨n, .exec s, m⟩
  | tail {n m s ss m'} (h : s.exec (invoke n) n m = (.value (), m')) :
      Enters ⟨n, .execAll (s :: ss), m⟩ ⟨n, .execAll ss, m'⟩
  | body {n m id f frame vs} : Enters ⟨n + 1, .call (.closure id f frame) vs, m⟩
      ⟨n, .execAll f.body, m.called f frame vs⟩

/-- The run comes to the other one. -/
def Reaches : Moment → Moment → Prop := Relation.ReflTransGen Enters

/-- The machine on which the node of the occurrence is evaluated at the moment, or its value written. -/
inductive Moment.Visits : Moment → Occurrence → Machine → Prop
  | read {n m id name} : Visits ⟨n, .eval (.variable id name), m⟩ ⟨id, name, false⟩ m
  | assign {n m id name e} : Visits ⟨n, .eval (.assign id name e), m⟩ ⟨id, name, true⟩ m
  | write {n m id name e v m'} (h : e.eval (invoke n) m = (.value v, m')) :
      Visits ⟨n, .eval (.assign id name e), m⟩ ⟨id, name, true⟩ m'

/-! ## The runs that a run starts, computed -/

/-- What comes next if the run has a value. -/
def Signal.next {α : Type} (k : α → Machine → List Moment) : Signal α × Machine → List Moment
  | (.value a, m) => k a m
  | _ => []

theorem Signal.mem_next {α : Type} {k : α → Machine → List Moment} {r : Signal α × Machine} {c : Moment} :
    c ∈ Signal.next k r ↔ ∃ a m, r = (.value a, m) ∧ c ∈ k a m := by
  rcases r with ⟨a | v | f | _, m⟩ <;> simp [Signal.next]

/-- The runs that a run starts, in order. -/
def Moment.entered : Moment → List Moment
  | ⟨n, .eval (.assign _ _ e), m⟩ => [⟨n, .eval e, m⟩]
  | ⟨n, .eval (.group e), m⟩ => [⟨n, .eval e, m⟩]
  | ⟨n, .eval (.unary _ e), m⟩ => [⟨n, .eval e, m⟩]
  | ⟨n, .eval (.binary l _ r), m⟩ =>
    ⟨n, .eval l, m⟩ :: Signal.next (fun _ m' => [⟨n, .eval r, m'⟩]) (l.eval (invoke n) m)
  | ⟨n, .eval (.logical l t r), m⟩ =>
    ⟨n, .eval l, m⟩ :: Signal.next (fun v m' => if settles t v then [] else [⟨n, .eval r, m'⟩]) (l.eval (invoke n) m)
  | ⟨n, .eval (.call e _ es), m⟩ =>
    ⟨n, .eval e, m⟩ :: Signal.next (fun v m₁ => ⟨n, .evalAll es, m₁⟩ ::
      match v with
      | .callable f => Signal.next (fun vs m₂ => if vs.length = f.arity then [⟨n, .call f vs, m₂⟩] else [])
          (Expr.evalAll (invoke n) es m₁)
      | _ => []) (e.eval (invoke n) m)
  | ⟨n, .evalAll (e :: es), m⟩ =>
    ⟨n, .eval e, m⟩ :: Signal.next (fun _ m' => [⟨n, .evalAll es, m'⟩]) (e.eval (invoke n) m)
  | ⟨n, .exec (.block ss), m⟩ => [⟨n, .execAll ss, m.opened m.here⟩]
  | ⟨n, .exec (.expression e), m⟩ => [⟨n, .eval e, m⟩]
  | ⟨n, .exec (.conditional e yes no), m⟩ =>
    ⟨n, .eval e, m⟩ :: Signal.next (fun v m' => if v.truthy then [⟨n, .exec yes, m'⟩] else
      no.toList.map fun s => ⟨n, .exec s, m'⟩) (e.eval (invoke n) m)
  | ⟨n, .exec (.print e), m⟩ => [⟨n, .eval e, m⟩]
  | ⟨n, .exec (.return _ o), m⟩ => o.toList.map fun e => ⟨n, .eval e, m⟩
  | ⟨n, .exec (.var _ o), m⟩ => o.toList.map fun e => ⟨n, .eval e, m⟩
  | ⟨n, .exec (.while e s), m⟩ => [⟨n, .loop e s n, m⟩]
  | ⟨n, .loop e s (k + 1), m⟩ =>
    ⟨n, .eval e, m⟩ :: Signal.next (fun v m₁ => if v.truthy then ⟨n, .exec s, m₁⟩ ::
      Signal.next (fun _ m₂ => [⟨n, .loop e s k, m₂⟩]) (s.exec (invoke n) n m₁) else []) (e.eval (invoke n) m)
  | ⟨n, .execAll (s :: ss), m⟩ =>
    ⟨n, .exec s, m⟩ :: Signal.next (fun _ m' => [⟨n, .execAll ss, m'⟩]) (s.exec (invoke n) n m)
  | ⟨n + 1, .call (.closure _ f frame) vs, m⟩ => [⟨n, .execAll f.body, m.called f frame vs⟩]
  | _ => []

theorem enters_of_mem_entered {c c' : Moment} (h : c' ∈ c.entered) : Enters c c' := by
  revert h
  fun_cases Moment.entered c <;>
    simp only [List.mem_cons, List.not_mem_nil, or_false, Signal.mem_next, List.mem_map, Option.mem_toList,
      false_imp_iff]
  · rintro rfl; exact .assign
  · rintro rfl; exact .group
  · rintro rfl; exact .unary
  · rintro (rfl | ⟨v, m', hl, rfl⟩)
    · exact .left
    · exact .right hl
  · rintro (rfl | ⟨v, m', hl, h⟩)
    · exact .logicalLeft
    · split at h
      · cases h
      · next hs =>
        obtain rfl := List.mem_singleton.1 h
        exact .logicalRight hl (by simpa using hs)
  · rintro (rfl | ⟨v, m₁, he, rfl | h⟩)
    · exact .callee
    · exact .arguments he
    · split at h
      · obtain ⟨vs, m₂, hes, h⟩ := Signal.mem_next.1 h
        split at h
        · next ha =>
          obtain rfl := List.mem_singleton.1 h
          exact .apply he hes ha
        · cases h
      · cases h
  · rintro (rfl | ⟨v, m', he, rfl⟩)
    · exact .first
    · exact .others he
  · rintro rfl; exact .block
  · rintro rfl; exact .expression
  · rintro (rfl | ⟨v, m', he, h⟩)
    · exact .test
    · split at h
      · next hv =>
        obtain rfl := List.mem_singleton.1 h
        exact .yes he hv
      · next hv =>
        obtain ⟨s, hs, rfl⟩ := List.mem_map.1 h
        obtain rfl := Option.mem_toList.1 hs
        exact .no he (by simpa using hv)
  · rintro rfl; exact .print
  · rintro ⟨e, rfl, rfl⟩; exact .return
  · rintro ⟨e, rfl, rfl⟩; exact .initializer
  · rintro rfl; exact .while
  · rintro (rfl | ⟨v, m₁, he, h⟩)
    · exact .loopTest
    · split at h
      · next hv =>
        rcases List.mem_cons.1 h with rfl | h
        · exact .loopBody he hv
        · obtain ⟨_, m₂, hb, h⟩ := Signal.mem_next.1 h
          obtain rfl := List.mem_singleton.1 h
          exact .loopAgain he hv hb
      · cases h
  · rintro (rfl | ⟨_, m', hs, rfl⟩)
    · exact .head
    · exact .tail hs
  · rintro rfl; exact .body

theorem mem_entered {c c' : Moment} : c' ∈ c.entered ↔ Enters c c' := by
  refine ⟨enters_of_mem_entered, fun h => ?_⟩
  cases h <;> simp [Moment.entered, Signal.mem_next, *]

/-- Follows a run into the runs it starts, each given by its index. -/
def Moment.follow : List Nat → Moment → Option Moment
  | [], c => some c
  | i :: path, c => c.entered[i]?.bind (Moment.follow path)

theorem Moment.reaches_of_follow : ∀ {path : List Nat} {c c' : Moment}, c.follow path = some c' → Reaches c c'
  | [], c, c', h => Option.some.inj h ▸ .refl
  | i :: path, c, c', h => by
    obtain ⟨d, hd, h⟩ := Option.bind_eq_some_iff.1 h
    exact .head (enters_of_mem_entered (List.mem_of_getElem? hd)) (reaches_of_follow h)

/-! ## Sessions -/

/-- A text, and the bound it is run with. -/
structure Text where
  bound : Nat
  source : String

namespace Session

/-- The session when the texts have been run. -/
def after (s : Session) (texts : List Text) : Session := texts.foldl (fun s t => (s.run t.bound t.source).2) s

@[simp] theorem after_nil (s : Session) : s.after [] = s := rfl

theorem after_snoc (s : Session) (texts : List Text) (t : Text) :
    s.after (texts ++ [t]) = ((s.after texts).run t.bound t.source).2 := by simp [after]

/-- The text is found free of static faults. -/
def Accepts (s : Session) (source : String) : Prop := (analyze s.fresh source).faults = []

instance (s : Session) (source : String) : Decidable (s.Accepts source) := by unfold Accepts; infer_instance

/-- How the run of an analyzed text starts. -/
def starting (s : Session) (bound : Nat) (a : Analysis) : Moment where
  bound := bound
  task := .execAll a.statements
  machine := { s.machine with bindings := s.machine.bindings.add a.entries }

/-- How the run of an accepted text starts. -/
def beginning (s : Session) (t : Text) : Moment := s.starting t.bound (analyze s.fresh t.source)

/-- The moment is one of the run of the text. -/
def ComesTo (s : Session) (t : Text) (c : Moment) : Prop := s.Accepts t.source ∧ Reaches (s.beginning t) c

theorem exists_comesTo {s : Session} {t : Text} {test : Moment → Bool} (ha : s.Accepts t.source) (path : List Nat)
    (h : ((s.beginning t).follow path).any test = true) : ∃ c, s.ComesTo t c ∧ test c = true := by
  obtain ⟨c, hc, ht⟩ := (Option.any_eq_true _ _).1 h
  exact ⟨c, ⟨ha, Moment.reaches_of_follow hc⟩, ht⟩

/-- The moment is one of the run of one of the texts. -/
def Happens (s : Session) (texts : List Text) (c : Moment) : Prop :=
  ∃ earlier t later, texts = earlier ++ t :: later ∧ (s.after earlier).ComesTo t c

end Session
end Scriptlet
