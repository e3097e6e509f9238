import Mathlib
import Scriptlet.Proofs.Frames
import Scriptlet.Proofs.Manners
import Scriptlet.Proofs.PairedValues

/-!
# Runs side by side

A program is run, and another one beside it, in a manner of its own.  What the two have to do with each other is left
open: how their trees correspond (`Pairing`), and how their stores do, in a world that grows with the frames that are
made (`Coupling`).  It is asked what each step on the store keeps (`Coupling.Lawful`).  From that, the walk over the
evaluator is made here, once: statements that correspond keep the machines in step and end alike
(`Coupling.Lawful.execAll`).
-/
namespace Scriptlet

/-! ## Trees -/

/-- How two trees correspond, place by place.  A declaration may lead from a place to another, and from one statement
of a list to the next there is a step. -/
structure Pairing where
  Place : Type
  token : Place → Token → Token → Prop
  occurrence : Place → Occurrence → Occurrence → Prop
  /-- The tokens declare a variable, and lead to the second place. -/
  declared : Place → Token → Token → Place → Prop
  /-- The functions are declared, and lead to the second place. -/
  function : Place → Function → Function → Place → Prop
  /-- The blocks have their statements at the second place. -/
  block : Place → List Stmt → List Stmt → Place → Prop
  next : Place → Place → Prop
  kind : ∀ {p t t'}, token p t t' → t.kind = t'.kind
  lexeme : ∀ {p t t'}, token p t t' → t.lexeme = t'.lexeme

section

variable (P : Pairing)

mutual
inductive Expr.Paired (p : P.Place) : Expr → Expr → Prop
  | literal (l : Literal) : Paired p (.literal l) (.literal l)
  | variable {i i' t t'} (h : P.occurrence p ⟨i, t, false⟩ ⟨i', t', false⟩) : Paired p (.variable i t) (.variable i' t')
  | assign {i i' t t' e e'} (h : P.occurrence p ⟨i, t, true⟩ ⟨i', t', true⟩) (he : Expr.Paired p e e') :
      Paired p (.assign i t e) (.assign i' t' e')
  | group {e e'} (he : Expr.Paired p e e') : Paired p (.group e) (.group e')
  | unary {t t' e e'} (ht : P.token p t t') (he : Expr.Paired p e e') : Paired p (.unary t e) (.unary t' e')
  | binary {l l' t t' r r'} (hl : Expr.Paired p l l') (ht : P.token p t t') (hr : Expr.Paired p r r') :
      Paired p (.binary l t r) (.binary l' t' r')
  | logical {l l' t t' r r'} (hl : Expr.Paired p l l') (ht : P.token p t t') (hr : Expr.Paired p r r') :
      Paired p (.logical l t r) (.logical l' t' r')
  | call {e e' t t' es es'} (he : Expr.Paired p e e') (ht : P.token p t t') (hes : Expr.AllPaired p es es') :
      Paired p (.call e t es) (.call e' t' es')

inductive Expr.AllPaired (p : P.Place) : List Expr → List Expr → Prop
  | nil : AllPaired p [] []
  | cons {e e' es es'} (he : Expr.Paired p e e') (hes : Expr.AllPaired p es es') : AllPaired p (e :: es) (e' :: es')
end

mutual
/-- The statements correspond, from the first place to the second. -/
inductive Stmt.Paired : P.Place → Stmt → Stmt → P.Place → Prop
  | block {p p₀ q₀ ss ss'} (h : P.block p ss ss' p₀) (hs : Stmt.AllPaired p₀ ss ss' q₀) :
      Paired p (.block ss) (.block ss') p
  | expression {p e e'} (he : e.Paired P p e') : Paired p (.expression e) (.expression e') p
  | function {p q t t' ts ts' ss ss'} (h : P.function p ⟨t, ts, ss⟩ ⟨t', ts', ss'⟩ q) :
      Paired p (.function t ts ss) (.function t' ts' ss') q
  | conditional {p e e' s s'} (he : e.Paired P p e') (hs : Stmt.Paired p s s' p) :
      Paired p (.conditional e s none) (.conditional e' s' none) p
  | alternative {p e e' s s' r r'} (he : e.Paired P p e') (hs : Stmt.Paired p s s' p) (hr : Stmt.Paired p r r' p) :
      Paired p (.conditional e s (some r)) (.conditional e' s' (some r')) p
  | print {p e e'} (he : e.Paired P p e') : Paired p (.print e) (.print e') p
  | return {p t t' o o'} (ho : Option.Rel (Expr.Paired P p) o o') : Paired p (.return t o) (.return t' o') p
  | var {p q t t' o o'} (h : P.declared p t t' q) (ho : Option.Rel (Expr.Paired P p) o o') :
      Paired p (.var t o) (.var t' o') q
  | while {p e e' s s'} (he : e.Paired P p e') (hs : Stmt.Paired p s s' p) :
      Paired p (.while e s) (.while e' s') p

inductive Stmt.AllPaired : P.Place → List Stmt → List Stmt → P.Place → Prop
  | nil {p} : AllPaired p [] [] p
  | cons {p p' q r s s' ss ss'} (hs : Stmt.Paired p s s' q) (hn : P.next q p') (hss : Stmt.AllPaired p' ss ss' r) :
      AllPaired p (s :: ss) (s' :: ss') r
end

end

/-! ## Machines -/

/-- How two runs correspond, in worlds. -/
structure Coupling (P : Pairing) where
  World : Type
  stores : World → Store → Store → Prop
  closures : World → Closures
  /-- The current frames are at the place. -/
  stands : P.Place → World → FrameId → FrameId → Prop
  /-- What may become of the world while the frame is the current one. -/
  later : FrameId → World → World → Prop
  /-- Nothing has changed for the frames that were there. -/
  apart : World → World → Prop
  fault : Fault → Fault → Prop
  left : Bindings
  right : Bindings

namespace Coupling

variable {P : Pairing}

section

variable (C : Coupling P)

abbrev values (W : C.World) : Value → Value → Prop := Value.Paired (C.closures W)

abbrev machines (W : C.World) : Machine → Machine → Prop := Machine.Paired (C.stores W) C.left C.right

/-- The runs go on at the place, in two frames of which the first is new, and what they do there is apart from the world
around. -/
def Admits (W : C.World) (p : P.Place) (s s' : Store) (f f' : FrameId) : Prop :=
  ∃ W₁, C.stores W₁ s s' ∧ C.stands p W₁ f f' ∧ ∀ W₂, C.later f W₁ W₂ → C.apart W W₂

/-- **What the steps keep**, when the second program is run in the manner. -/
structure Lawful (M : Manner) : Prop where
  later_refl : ∀ f W, C.later f W W
  later_trans : ∀ {f W W' W''}, C.later f W W' → C.later f W' W'' → C.later f W W''
  later_of_apart : ∀ {f W W'}, C.apart W W' → C.later f W W'
  stands_of_apart : ∀ {p f f' W W'}, C.apart W W' → C.stands p W f f' → C.stands p W' f f'
  closures_of_later : ∀ {f W W'}, C.later f W W' → ∀ {g frame g' frame'}, (C.closures W).Rel g frame g' frame' →
    (C.closures W').Rel g frame g' frame'
  fault_at : ∀ {p t t'}, P.token p t t' → ∀ cause, C.fault (.run t.line cause) (.run t'.line cause)
  fault_output : P.Place → ∀ cause, C.fault (.output cause) (.output cause)
  lookUp : ∀ {p o o' W m m'}, P.occurrence p o o' → C.machines W m m' → C.stands p W m.here m'.here →
    ∃ signal signal', Run.lookUp o.id o.name m = (signal, m) ∧ M.access.lookUp o'.id o'.name m' = (signal', m') ∧
      signal.Paired (C.values W) C.fault (C.values W) signal'
  assign : ∀ {p o o' W m m' v v'}, P.occurrence p o o' → C.machines W m m' → C.stands p W m.here m'.here →
    C.values W v v' → ∃ W₁ signal signal' s s', C.apart W W₁ ∧
      Run.assign o.id o.name v m = (signal, { m with store := s }) ∧
      M.access.assign o'.id o'.name v' m' = (signal', { m' with store := s' }) ∧ C.stores W₁ s s' ∧
      signal.Paired (C.values W₁) C.fault (fun _ _ => True) signal'
  declare : ∀ {p q t t' W s s' f f' v v'}, P.declared p t t' q → C.stores W s s' → C.stands p W f f' →
    C.values W v v' → ∃ W₁, C.later f W W₁ ∧ C.stores W₁ (s.define f t.lexeme v) (s'.define f' t'.lexeme v') ∧
      C.stands q W₁ f f'
  function : ∀ {p q g g' W s s' f f'}, P.function p g g' q → C.stores W s s' → C.stands p W f f' → ∀ id,
    ∃ W₁, C.later f W W₁ ∧ C.stores W₁ (s.define f g.name.lexeme (.callable (.closure id g f)))
      (s'.define f' g'.name.lexeme (.callable (.closure id g' f'))) ∧ C.stands q W₁ f f'
  next : ∀ {q p W s s' f f'}, P.next q p → C.stores W s s' → C.stands q W f f' →
    ∃ W₁, C.later f W W₁ ∧ C.stores W₁ s s' ∧ C.stands p W₁ f f'
  framed : ∀ {p p₀ ss ss' W s s' f f'}, P.block p ss ss' p₀ → M.bare ss' = false → C.stores W s s' →
    C.stands p W f f' → C.Admits W p₀ (s.add (some f)).2 (s'.add (some f')).2 s.frames.size s'.frames.size
  bare : ∀ {p p₀ ss ss' W s s' f f'}, P.block p ss ss' p₀ → M.bare ss' = true → C.stores W s s' →
    C.stands p W f f' → C.Admits W p₀ (s.add (some f)).2 s' s.frames.size f'
  call : ∀ {g f g' f' W s s' vs vs'}, (C.closures W).Rel g f g' f' → C.stores W s s' →
    List.Forall₂ (C.values W) vs vs' → vs.length = g.params.length →
    ∃ p q, Stmt.AllPaired P p g.body g'.body q ∧
      C.Admits W p ((s.add (some f)).2.boundIn s.frames.size g.params vs)
        ((s'.add (some f')).2.boundIn s'.frames.size g'.params vs') s.frames.size s'.frames.size

/-- Machines in step, with the current frames at the place. -/
structure Aligned (p : P.Place) (W : C.World) (m m' : Machine) : Prop where
  machines : C.machines W m m'
  stands : C.stands p W m.here m'.here

/-- Runs have ended in step, in the frames in which they were started, and are at the place if they have values. -/
structure Ended {α α' : Type} (q : P.Place) (R : C.World → α → α' → Prop) (f f' : FrameId) (W : C.World)
    (e : Signal α × Machine) (e' : Signal α' × Machine) : Prop where
  machines : C.machines W e.2 e'.2
  here : e.2.here = f
  here' : e'.2.here = f'
  signal : e.1.Paired (C.values W) C.fault (fun x x' => R W x x' ∧ C.stands q W f f') e'.1

end

end Coupling

/-- **Runs that keep machines in step**, from the first place to the second, and end with values that are related in the
world that they leave. -/
def Run.Coupled {P : Pairing} (C : Coupling P) {α α' : Type} (W : C.World) (p q : P.Place)
    (R : C.World → α → α' → Prop) (a : Run α) (a' : Run α') : Prop :=
  ∀ ⦃m m' : Machine⦄, C.Aligned p W m m' → ∃ W₁, C.later m.here W W₁ ∧ C.Ended q R m.here m'.here W₁ (a m) (a' m')

namespace Coupling.Lawful

variable {P : Pairing} {C : Coupling P} {M : Manner} (h : C.Lawful M)

variable {α α' β β' : Type} {R : C.World → α → α' → Prop} {Q : C.World → β → β' → Prop} {W W' : C.World}
  {p q r : P.Place} {v v' w w' : Value} {t t' : Token}

include h

theorem values_of_later {f : FrameId} (hk : C.later f W W') (hv : C.values W v v') : C.values W' v v' :=
  hv.imp (h.closures_of_later hk)

/-! ## Sequences -/

/-- Runs that leave the machines as they are. -/
theorem still {a : Run α} {a' : Run α'} {signal : Signal α} {signal' : Signal α'} (ha : ∀ m, a m = (signal, m))
    (ha' : ∀ m, a' m = (signal', m)) (hs : signal.Paired (C.values W) C.fault (R W) signal') :
    Run.Coupled C W p p R a a' := by
  intro m m' hm
  refine ⟨W, h.later_refl _ W, ?_⟩
  rw [ha, ha']
  refine ⟨hm.machines, rfl, rfl, ?_⟩
  cases hs with
  | value hx => exact .value ⟨hx, hm.stands⟩
  | returned hv => exact .returned hv
  | failed hf => exact .failed hf
  | spent => exact .spent

theorem pure {x : α} {x' : α'} (hx : R W x x') : Run.Coupled C W p p R (Pure.pure x) (Pure.pure x') :=
  h.still (fun _ => rfl) (fun _ => rfl) (.value hx)

theorem failAt (ht : P.token p t t') (cause : Cause) :
    Run.Coupled C W p p R (Run.failAt t cause) (Run.failAt t' cause) :=
  h.still (fun _ => rfl) (fun _ => rfl) (.failed (h.fault_at ht cause))

theorem leave (hv : C.values W v v') : Run.Coupled C W p p R (Run.leave v) (Run.leave v') :=
  h.still (fun _ => rfl) (fun _ => rfl) (.returned hv)

theorem spent : Run.Coupled C W p p R Run.spent Run.spent := h.still (fun _ => rfl) (fun _ => rfl) .spent

/-- **Sequences stay in step if their parts do**, the second ones in the world that the first have left. -/
theorem bind {a : Run α} {a' : Run α'} {b : α → Run β} {b' : α' → Run β'} (ha : Run.Coupled C W p q R a a')
    (hb : ∀ {f W₁ x x'}, C.later f W W₁ → R W₁ x x' → Run.Coupled C W₁ q r Q (b x) (b' x')) :
    Run.Coupled C W p r Q (a >>= b) (a' >>= b') := by
  intro m m' hm
  obtain ⟨W₁, hk, he⟩ := ha hm
  rw [Run.bind_def, Run.bind_def]
  rcases hr : a m with ⟨signal, n⟩
  rcases hr' : a' m' with ⟨signal', n'⟩
  rw [hr, hr'] at he
  obtain ⟨hn, hhere, hhere', hs⟩ := he
  dsimp only at hn hhere hhere' hs
  cases hs with
  | value hx =>
    have hready : C.Aligned q W₁ n n' := ⟨hn, by rw [hhere, hhere']; exact hx.2⟩
    obtain ⟨W₂, hk₂, he₂⟩ := hb hk hx.1 hready
    rw [hhere] at hk₂
    rw [hhere, hhere'] at he₂
    exact ⟨W₂, h.later_trans hk hk₂, he₂⟩
  | returned hv => exact ⟨W₁, hk, hn, hhere, hhere', .returned hv⟩
  | failed hf => exact ⟨W₁, hk, hn, hhere, hhere', .failed hf⟩
  | spent => exact ⟨W₁, hk, hn, hhere, hhere', .spent⟩

omit h in
theorem choose {c c' : Bool} (hc : c = c') {a b : Run α} {a' b' : Run α'} (ha : Run.Coupled C W p q R a a')
    (hb : Run.Coupled C W p q R b b') :
    Run.Coupled C W p q R (if c = true then a else b) (if c' = true then a' else b') := by
  subst hc
  split
  · exact ha
  · exact hb

/-! ## Steps -/

theorem oneResult {a a' : Run Value} (ht : P.token p t t') (ha : OneResult t t' a a') :
    Run.Coupled C W p p C.values a a' := by
  cases ha with
  | value hv => exact h.pure (.same hv)
  | fault cause => exact h.failAt ht cause

theorem print {text text' : String} (ht : text = text') :
    Run.Coupled C W p p (fun _ _ _ => True) (Run.print text) (Run.print text') := by
  subst ht
  intro m m' hm
  have hw (sink : Sink) : C.machines W { m with sink } { m' with sink } :=
    ⟨hm.machines.store, hm.machines.left, hm.machines.right, rfl, hm.machines.clock, hm.machines.ticks,
      hm.machines.fresh⟩
  refine ⟨W, h.later_refl _ W, ?_⟩
  unfold Run.print
  rw [hm.machines.sink]
  obtain ⟨bytes, hb | hb⟩ := write_cases m'.sink (text ++ "\n") <;> rw [hb]
  · exact ⟨hw _, rfl, rfl, .value ⟨trivial, hm.stands⟩⟩
  · exact ⟨hw _, rfl, rfl, .failed (h.fault_output p _)⟩

theorem readClock : Run.Coupled C W p p (fun _ => Eq) Run.readClock Run.readClock := by
  intro m m' hm
  have hclock : m.clock m.ticks = m'.clock m'.ticks := by rw [hm.machines.clock, hm.machines.ticks]
  refine ⟨W, h.later_refl _ W, ?_, rfl, rfl, .value ⟨hclock, hm.stands⟩⟩
  exact ⟨hm.machines.store, hm.machines.left, hm.machines.right, hm.machines.sink, hm.machines.clock,
    congrArg (· + 1) hm.machines.ticks, hm.machines.fresh⟩

theorem apply (f : Native) {vs vs' : List Value} (hvs : List.Forall₂ (C.values W) vs vs') :
    Run.Coupled C W p p C.values (f.apply vs) (f.apply vs') := by
  unfold Native.apply
  rcases f.host
  · exact h.bind h.readClock fun _ hx => hx ▸ h.pure (.same rfl)
  · exact h.pure (Value.Paired.head hvs)
  · rw [List.getLast?_eq_head?_reverse, List.getLast?_eq_head?_reverse]
    exact h.pure (Value.Paired.head (List.forall₂_reverse_iff.2 hvs))
  · rw [hvs.length_eq]
    exact h.pure (.same rfl)

theorem coupled_lookUp {o o' : Occurrence} (ho : P.occurrence p o o') :
    Run.Coupled C W p p C.values (Run.lookUp o.id o.name) (M.access.lookUp o'.id o'.name) := by
  intro m m' hm
  obtain ⟨signal, signal', hr, hr', hs⟩ := h.lookUp ho hm.machines hm.stands
  refine ⟨W, h.later_refl _ W, ?_⟩
  rw [hr, hr']
  exact ⟨hm.machines, rfl, rfl, hs.imp fun hv => ⟨hv, hm.stands⟩⟩

theorem coupled_assign {o o' : Occurrence} (ho : P.occurrence p o o') (hv : C.values W v v') :
    Run.Coupled C W p p (fun _ _ _ => True) (Run.assign o.id o.name v) (M.access.assign o'.id o'.name v') := by
  intro m m' hm
  obtain ⟨W₁, signal, signal', s, s', ha, hr, hr', hstores, hs⟩ := h.assign ho hm.machines hm.stands hv
  refine ⟨W₁, h.later_of_apart ha, ?_⟩
  rw [hr, hr']
  have hstands := h.stands_of_apart ha hm.stands
  exact ⟨hm.machines.moved hstores m.here m'.here, rfl, rfl, hs.imp fun _ => ⟨trivial, hstands⟩⟩

theorem coupled_define (ht : P.declared p t t' q) (hv : C.values W v v') :
    Run.Coupled C W p q (fun _ _ _ => True) (Run.define t.lexeme v) (Run.define t'.lexeme v') := by
  intro m m' hm
  obtain ⟨W₁, hk, hstores, hstands⟩ := h.declare ht hm.machines.store hm.stands hv
  exact ⟨W₁, hk, hm.machines.moved hstores m.here m'.here, rfl, rfl, .value ⟨trivial, hstands⟩⟩

/-- A function is made and declared. -/
theorem coupled_function {g g' : Function} (hg : P.function p g g' q) : Run.Coupled C W p q (fun _ _ _ => True)
    (Run.makeClosure g >>= fun f => Run.define g.name.lexeme f)
    (Run.makeClosure g' >>= fun f => Run.define g'.name.lexeme f) := by
  intro m m' hm
  obtain ⟨W₁, hk, hstores, hstands⟩ := h.function hg hm.machines.store hm.stands m.fresh
  refine ⟨W₁, hk, ⟨?_, hm.machines.left, hm.machines.right, hm.machines.sink, hm.machines.clock, hm.machines.ticks,
    congrArg (· + 1) hm.machines.fresh⟩, rfl, rfl, .value ⟨trivial, hstands⟩⟩
  change C.stores W₁ (m.store.define m.here g.name.lexeme (.callable (.closure m.fresh g m.here)))
    (m'.store.define m'.here g'.name.lexeme (.callable (.closure m'.fresh g' m'.here)))
  rw [← hm.machines.fresh]
  exact hstores

/-- From one statement to the next. -/
theorem passed (hn : P.next q p) {a : Run α} {a' : Run α'} (ha : ∀ W₁, Run.Coupled C W₁ p r R a a') :
    Run.Coupled C W q r R a a' := by
  intro m m' hm
  obtain ⟨W₁, hk, hstores, hstands⟩ := h.next hn hm.machines.store hm.stands
  obtain ⟨W₂, hk₂, he⟩ := ha W₁ ⟨hm.machines.moved hstores m.here m'.here, hstands⟩
  exact ⟨W₂, h.later_trans hk hk₂, he⟩

/-! ## Frames of their own -/

/-- What runs do in frames of their own leaves the machines in step where they were. -/
theorem entered {p₀ q₀ : P.Place} {s s' : Store} {f f' : FrameId} {m m' : Machine} {a : Run α} {a' : Run α'}
    (hm : C.Aligned p W m m') (he : C.Admits W p₀ s s' f f') (ha : ∀ W₁, Run.Coupled C W₁ p₀ q₀ R a a') :
    let e := a { m with store := s, here := f }
    let e' := a' { m' with store := s', here := f' }
    ∃ W₁, C.later m.here W W₁ ∧ C.machines W₁ e.2 e'.2 ∧ e'.2.here = f' ∧ C.stands p W₁ m.here m'.here ∧
      e.1.Paired (C.values W₁) C.fault (R W₁) e'.1 := by
  intro e e'
  obtain ⟨W₁, hstores, hstands, hapart⟩ := he
  obtain ⟨W₂, hk, he⟩ := ha W₁ ⟨hm.machines.moved hstores f f', hstands⟩
  have hapart := hapart W₂ hk
  exact ⟨W₂, h.later_of_apart hapart, he.machines, he.here', h.stands_of_apart hapart hm.stands, he.signal.imp And.left⟩

/-- Blocks that both make frames. -/
theorem coupled_framed {p₀ q₀ : P.Place} {ss ss' : List Stmt} (hb : P.block p ss ss' p₀) (hM : M.bare ss' = false)
    {a a' : Run α} (ha : ∀ W₁, Run.Coupled C W₁ p₀ q₀ (fun _ _ _ => True) a a') :
    Run.Coupled C W p p (fun _ _ _ => True) (Run.newFrameHere >>= fun f => Run.within f a)
      (Run.newFrameHere >>= fun f => Run.within f a') := by
  intro m m' hm
  obtain ⟨W₁, hk, hmachines, -, hstands, hs⟩ := h.entered hm (h.framed hb hM hm.machines.store hm.stands) ha
  exact ⟨W₁, hk, hmachines.moved hmachines.store m.here m'.here, rfl, rfl, hs.imp fun _ => ⟨trivial, hstands⟩⟩

/-- **A frame that only the first run makes.** -/
theorem coupled_bare {p₀ q₀ : P.Place} {ss ss' : List Stmt} (hb : P.block p ss ss' p₀) (hM : M.bare ss' = true)
    {a a' : Run α} (ha : ∀ W₁, Run.Coupled C W₁ p₀ q₀ (fun _ _ _ => True) a a') :
    Run.Coupled C W p p (fun _ _ _ => True) (Run.newFrameHere >>= fun f => Run.within f a) a' := by
  intro m m' hm
  obtain ⟨W₁, hk, hmachines, hhere', hstands, hs⟩ := h.entered hm (h.bare hb hM hm.machines.store hm.stands) ha
  exact ⟨W₁, hk, hmachines.moved hmachines.store m.here _, rfl, hhere', hs.imp fun _ => ⟨trivial, hstands⟩⟩

end Coupling.Lawful

/-! ## Trees -/

/-- Calls that stay in step, whatever functions and arguments they are given. -/
def Coupling.Calls {P : Pairing} (C : Coupling P) (inv inv' : Invoke) : Prop :=
  ∀ ⦃W : C.World⦄ ⦃p : P.Place⦄ ⦃f f' : Callable⦄ ⦃vs vs' : List Value⦄, C.values W (.callable f) (.callable f') →
    List.Forall₂ (C.values W) vs vs' → vs.length = f.arity → Run.Coupled C W p p C.values (inv f vs) (inv' f' vs')

namespace Coupling.Lawful

variable {P : Pairing} {C : Coupling P} {M : Manner} (h : C.Lawful M) {inv inv' : Invoke} (hi : C.Calls inv inv')
  {W : C.World} {p q : P.Place}

include h hi

theorem coupled_applyCall {t t' : Token} (ht : P.token p t t') {v v' : Value} (hv : C.values W v v')
    {vs vs' : List Value} (hvs : List.Forall₂ (C.values W) vs vs') :
    Run.Coupled C W p p C.values (applyCall inv t v vs) (applyCall inv' t' v' vs') := by
  have hcall : ∀ {f f' : Callable}, C.values W (.callable f) (.callable f') → f.arity = f'.arity →
      Run.Coupled C W p p C.values (applyCall inv t (.callable f) vs) (applyCall inv' t' (.callable f') vs') := by
    intro f f' hf ha
    dsimp only [applyCall]
    rw [← hvs.length_eq, ← ha]
    split
    · next hlen => exact hi hf hvs hlen
    · exact h.failAt ht _
  cases hv with
  | closure id hf => exact hcall (.closure id hf) ((C.closures W).arity hf)
  | same hv =>
    cases v with
    | callable f => exact hcall (.same hv) rfl
    | _ => exact h.failAt ht _

omit h hi in
mutual
theorem eval (h : C.Lawful M) (hi : C.Calls inv inv') {p : P.Place} : ∀ {e e' : Expr}, e.Paired P p e' →
    ∀ {W : C.World}, Run.Coupled C W p p C.values (e.eval inv) (e'.evalBy M inv')
  | _, _, .literal l, _ => h.pure (.ofLiteral l)
  | _, _, .variable ho, _ => h.coupled_lookUp ho
  | _, _, .assign ho he, _ => h.bind (eval h hi he) fun _ hv =>
      h.bind (h.coupled_assign ho hv) fun hk _ => h.pure (h.values_of_later hk hv)
  | _, _, .group he, _ => by
      rw [Expr.eval, Expr.evalBy]
      exact eval h hi he
  | _, _, .unary ht he, _ => h.bind (eval h hi he) fun _ hv => h.oneResult ht (hv.applyUnary (P.kind ht))
  | _, _, .binary hl ht hr, _ => h.bind (eval h hi hl) fun _ hv => h.bind (eval h hi hr) fun hk hw =>
      h.oneResult ht ((h.values_of_later hk hv).applyBinary hw (P.kind ht) (P.lexeme ht))
  | _, _, .logical hl ht hr, _ => h.bind (eval h hi hl) fun _ hv =>
      choose (settles_congr (P.kind ht) hv.truthy) (h.pure hv) (eval h hi hr)
  | _, _, .call he ht hes, _ => h.bind (eval h hi he) fun _ hv => h.bind (evalAll h hi hes) fun hk hvs =>
      h.coupled_applyCall hi ht (h.values_of_later hk hv) hvs

theorem evalAll (h : C.Lawful M) (hi : C.Calls inv inv') {p : P.Place} : ∀ {es es' : List Expr},
    Expr.AllPaired P p es es' → ∀ {W : C.World},
      Run.Coupled C W p p (fun W₁ => List.Forall₂ (C.values W₁)) (Expr.evalAll inv es) (Expr.evalAllBy M inv' es')
  | _, _, .nil, _ => h.pure .nil
  | _, _, .cons he hes, _ => h.bind (eval h hi he) fun _ hv => h.bind (evalAll h hi hes) fun hk hvs =>
      h.pure (.cons (h.values_of_later hk hv) hvs)
end

theorem optionalEval {o o' : Option Expr} (ho : Option.Rel (Expr.Paired P p) o o') :
    Run.Coupled C W p p C.values (Scriptlet.optionalEval inv o) (optionalEvalBy M inv' o') := by
  cases ho with
  | none => exact h.pure (.same rfl)
  | some he => exact h.eval hi he

omit hi in
theorem loop {test test' : Run Value} {body body' : Run Unit}
    (ht : ∀ W, Run.Coupled C W p p C.values test test')
    (hb : ∀ W, Run.Coupled C W p p (fun _ _ _ => True) body body') (n : Nat) :
    Run.Coupled C W p p (fun _ _ _ => True) (Scriptlet.loop test body n) (Scriptlet.loop test' body' n) := by
  induction n generalizing W with
  | zero => exact h.spent
  | succ n ih =>
    rw [loop_succ, loop_succ]
    exact h.bind (ht W) fun _ hv => choose hv.truthy (h.bind (hb _) fun _ _ => ih) (h.pure trivial)

omit h hi in
mutual
/-- **A statement runs in step.** -/
theorem exec (h : C.Lawful M) (hi : C.Calls inv inv') (n : Nat) : ∀ {p q : P.Place} {s s' : Stmt}, s.Paired P p s' q →
    ∀ {W : C.World}, Run.Coupled C W p q (fun _ _ _ => True) (s.exec inv n) (s'.execBy M inv' n)
  | _, _, _, _, @Stmt.Paired.block _ _ _ _ _ ss' hb hs, _ => by
      rw [Stmt.exec, Stmt.execBy]
      cases hM : M.bare ss' with
      | false => exact h.coupled_framed hb hM fun _ => execAll h hi n hs
      | true => exact h.coupled_bare hb hM fun _ => execAll h hi n hs
  | _, _, _, _, .expression he, _ => h.bind (h.eval hi he) fun _ _ => h.pure trivial
  | _, _, _, _, .function hg, _ => h.coupled_function hg
  | _, _, _, _, .conditional he hs, _ => h.bind (h.eval hi he) fun _ hv =>
      choose hv.truthy (exec h hi n hs) (h.pure trivial)
  | _, _, _, _, .alternative he hs hr, _ => h.bind (h.eval hi he) fun _ hv =>
      choose hv.truthy (exec h hi n hs) (exec h hi n hr)
  | _, _, _, _, .print he, _ => h.bind (h.eval hi he) fun _ hv => h.print hv.display
  | _, _, _, _, .return ho, _ => h.bind (h.optionalEval hi ho) fun _ hv => h.leave hv
  | _, _, _, _, .var ht ho, _ => h.bind (h.optionalEval hi ho) fun _ hv => h.coupled_define ht hv
  | _, _, _, _, .while he hs, _ => h.loop (fun _ => h.eval hi he) (fun _ => exec h hi n hs) n

theorem execAll (h : C.Lawful M) (hi : C.Calls inv inv') (n : Nat) : ∀ {p q : P.Place} {ss ss' : List Stmt},
    Stmt.AllPaired P p ss ss' q → ∀ {W : C.World},
      Run.Coupled C W p q (fun _ _ _ => True) (Stmt.execAll inv n ss) (Stmt.execAllBy M inv' n ss')
  | _, _, _, _, .nil, _ => h.pure trivial
  | _, _, _, _, .cons hs hn hss, _ => h.bind (exec h hi n hs) fun _ _ => h.passed hn fun _ => execAll h hi n hss
end

/-! ## Calls -/

omit h hi in
/-- The body of a function gives a value, in whichever of two ways it ends. -/
theorem ended_result {f f' f₀ f₀' : FrameId} {a a' : Run Unit} {m m' : Machine}
    (hm : C.machines W (a { m with here := f₀ }).2 (a' { m' with here := f₀' }).2) (hf : m.here = f)
    (hf' : m'.here = f')
    (hs : (a { m with here := f₀ }).1.Paired (C.values W) C.fault (fun _ _ => True) (a' { m' with here := f₀' }).1)
    (hstands : C.stands p W f f') :
    C.Ended p C.values f f' W (Run.result (Run.within f₀ a) m) (Run.result (Run.within f₀' a') m') := by
  unfold Run.result Run.within
  rcases hr : a { m with here := f₀ } with ⟨signal, n⟩
  rcases hr' : a' { m' with here := f₀' } with ⟨signal', n'⟩
  rw [hr, hr'] at hm hs
  have hmoved := hm.moved hm.store m.here m'.here
  dsimp only at hs ⊢
  cases hs with
  | value _ => exact ⟨hmoved, hf, hf', .value ⟨.same rfl, hstands⟩⟩
  | returned hv => exact ⟨hmoved, hf, hf', .value ⟨hv, hstands⟩⟩
  | failed hf₁ => exact ⟨hmoved, hf, hf', .failed hf₁⟩
  | spent => exact ⟨hmoved, hf, hf', .spent⟩

theorem coupled_call {g g' : Function} {f f' : FrameId} (hg : (C.closures W).Rel g f g' f') {vs vs' : List Value}
    (hvs : List.Forall₂ (C.values W) vs vs') (hlen : vs.length = g.params.length) (n : Nat) :
    Run.Coupled C W p p C.values
      (Run.newFrame f >>= fun inner => bindParams inner g.params vs >>= fun _ =>
        Run.result (Run.within inner (Stmt.execAll inv n g.body)))
      (Run.newFrame f' >>= fun inner => bindParams inner g'.params vs' >>= fun _ =>
        Run.result (Run.within inner (Stmt.execAllBy M inv' n g'.body))) := by
  intro m m' hm
  obtain ⟨p₀, q₀, hbody, he⟩ := h.call hg hm.machines.store hvs hlen
  obtain ⟨W₁, hk, hmachines, -, hstands, hs⟩ := h.entered hm he fun _ => h.execAll hi n hbody
  refine ⟨W₁, hk, ?_⟩
  rw [enter_call, enter_call]
  exact ended_result hmachines rfl rfl hs hstands

end Coupling.Lawful

namespace Coupling.Lawful

variable {P : Pairing} {C : Coupling P} {M : Manner} {W : C.World} {p q : P.Place}

/-- **Calls stay in step.** -/
theorem calls (h : C.Lawful M) (n : Nat) : C.Calls (invoke n) (invokeBy M n) := by
  induction n with
  | zero =>
    intro W p f f' vs vs' hf hvs _
    cases hf with
    | closure id hg => exact h.spent
    | same hf =>
      cases f with
      | native id f => exact h.apply f hvs
      | closure id g frame => cases hf
  | succ n ih =>
    intro W p f f' vs vs' hf hvs hlen
    cases hf with
    | closure id hg => exact h.coupled_call ih hg hvs hlen n
    | same hf =>
      cases f with
      | native id f => exact h.apply f hvs
      | closure id g frame => cases hf

/-- **Statements that correspond run in step.** -/
theorem run (h : C.Lawful M) {ss ss' : List Stmt} (hs : Stmt.AllPaired P p ss ss' q) (n : Nat) :
    Run.Coupled C W p q (fun _ _ _ => True) (Stmt.execAll (invoke n) n ss) (Stmt.execAllBy M (invokeBy M n) n ss') :=
  h.execAll (h.calls n) n hs

/-- The same with the manner that the evaluator has itself. -/
theorem run_distance (h : C.Lawful Access.distance.manner) {ss ss' : List Stmt}
    (hs : Stmt.AllPaired P p ss ss' q) (n : Nat) :
    Run.Coupled C W p q (fun _ _ _ => True) (Stmt.execAll (invoke n) n ss) (Stmt.execAll (invoke n) n ss') := by
  have hrun := h.run (W := W) hs n
  rwa [Stmt.execAllBy_eq_execAll _ _ rfl _ fun _ _ => rfl, invokeBy_eq_invoke rfl fun _ => rfl] at hrun

end Coupling.Lawful

end Scriptlet
