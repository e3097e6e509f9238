import Mathlib
import Scriptlet.Proofs.Frames
import Scriptlet.Proofs.Steps

/-!
# Runs keep frames and scopes together

What a run makes of a machine on which the frames fit: they fit still, the current frame is the one it was, and only a
declaration has added a name to it (`Moment.Scoped.execAll`).  The proof follows the evaluator: expressions for a bound
on calls, statements along the tree and along the rounds of a loop, and calls by induction on the bound.
-/
namespace Scriptlet

namespace History

variable (H : History)

/-- What every run keeps of a machine, with new names in the frame `g` only. -/
structure Keeps (g : Option FrameId) (m m' : Machine) : Prop where
  later : m.store.Later g m'.store
  fits : H.StoreFits m'.store
  here : m'.here = m.here
  bindings : m'.bindings = m.bindings
  flushable : m'.sink.flushable = m.sink.flushable

/-- A run ends well: its value satisfies `post`, what it returns is fine, and a fault is excused. -/
def Ends {α : Type} (post : α → Machine → Prop) : Signal α → Machine → Prop
  | .value a, m => post a m
  | .returned v, m => H.Fine m.store v
  | .failed f, _ => H.Excused f
  | .spent, _ => True

/-- The run keeps the machine and ends well. -/
structure Ok {α : Type} (g : Option FrameId) (post : α → Machine → Prop) (r : Run α) (m : Machine) : Prop where
  keeps : H.Keeps g m (r m).2
  ends : H.Ends post (r m).1 (r m).2

variable {H} {α β : Type} {g : Option FrameId} {m m' m'' : Machine}

theorem Keeps.refl (h : H.StoreFits m.store) : H.Keeps g m m := ⟨.refl g _, h, rfl, rfl, rfl⟩

theorem Keeps.trans (h : H.Keeps g m m') (h' : H.Keeps g m' m'') : H.Keeps g m m'' :=
  ⟨h.later.trans h'.later, h'.fits, h'.here.trans h.here, h'.bindings.trans h.bindings,
    h'.flushable.trans h.flushable⟩

theorem Keeps.weaken (h : H.Keeps none m m') (g : Option FrameId) : H.Keeps g m m' :=
  ⟨h.later.weaken g, h.fits, h.here, h.bindings, h.flushable⟩

namespace Ok

variable {post : α → Machine → Prop} {r : Run α}

theorem of_eq {signal : Signal α} (h : r m = (signal, m')) (hk : H.Keeps g m m') (he : H.Ends post signal m') :
    H.Ok g post r m := by
  refine ⟨?_, ?_⟩ <;> rw [h]
  · exact hk
  · exact he

theorem of_run {signal : Signal α} (h : H.Ok g post r m) (hr : r m = (signal, m')) :
    H.Keeps g m m' ∧ H.Ends post signal m' := by
  obtain ⟨hk, he⟩ := h
  rw [hr] at hk he
  exact ⟨hk, he⟩

theorem pure {a : α} (h : H.StoreFits m.store) (hp : post a m) : H.Ok g post (Pure.pure a) m :=
  of_eq rfl (.refl h) hp

theorem fail {f : Fault} (h : H.StoreFits m.store) (hf : ∀ line x, f ≠ .run line (.undefinedVariable x)) :
    H.Ok g post (Run.fail f) m := of_eq rfl (.refl h) (.inl hf)

theorem mono {post' : α → Machine → Prop} (h : H.Ok none post r m)
    (hp : ∀ a m', post a m' → H.Keeps none m m' → post' a m') : H.Ok g post' r m := by
  rcases hr : r m with ⟨a | v | e | _, m'⟩ <;> obtain ⟨hk, he⟩ := h.of_run hr <;> refine of_eq hr (hk.weaken g) ?_
  · exact hp a m' he hk
  · exact he
  · exact he
  · trivial

/-- **A sequence is well if its parts are**, the second one on what the first has left. -/
theorem bind {f : α → Run β} {post' : β → Machine → Prop} (h : H.Ok g post r m)
    (hf : ∀ a m', r m = (.value a, m') → H.Keeps g m m' → post a m' → H.Ok g post' (f a) m') :
    H.Ok g post' (r >>= f) m := by
  rcases hr : r m with ⟨a | v | e | _, m'⟩ <;> obtain ⟨hk, he⟩ := h.of_run hr
  · rcases hfa : f a m' with ⟨signal, m''⟩
    obtain ⟨hk', he'⟩ := (hf a m' hr hk he).of_run hfa
    exact of_eq (by rw [Run.bind_def, hr, ← hfa]) (hk.trans hk') he'
  · exact of_eq (by rw [Run.bind_def, hr]) hk (show H.Ends post' (.returned v) m' from he)
  · exact of_eq (by rw [Run.bind_def, hr]) hk (show H.Ends post' (.failed e) m' from he)
  · exact of_eq (by rw [Run.bind_def, hr]) hk (show H.Ends post' .spent m' from trivial)

end Ok

/-! ## Steps -/

/-- A value that is fine on the machine. -/
abbrev FineOn (H : History) (v : Value) (m : Machine) : Prop := H.Fine m.store v

theorem StoreFits.of_lookup {s : Store} (h : H.StoreFits s) {f : FrameId} {x : String} {v : Value}
    (hv : (s.cells f).lookup x = some v) : H.Fine s v := by
  obtain ⟨l, l', hc, -⟩ := List.lookup_eq_some_iff.1 hv
  exact h.fine f (x, v) (by rw [hc]; simp)

theorem ok_lookUp (h : H.StoreFits m.store) {c : Moment} {o : Occurrence} (hc : H.Current c) (ho : c.Visits o m) :
    H.Ok none H.FineOn (Run.lookUp o.id o.name) m := by
  rcases lookUp_cases o.id o.name m with ⟨f, v, -, hf, hr⟩ | ⟨hn, hr⟩
  · exact .of_eq hr (.refl h) (h.of_lookup hf)
  · exact .of_eq hr (.refl h) (.inr ⟨c, o, m, hc, ho, hn, rfl⟩)

theorem ok_assign (h : H.StoreFits m.store) {c : Moment} {o : Occurrence} (hc : H.Current c) (ho : c.Visits o m)
    {v : Value} (hv : H.Fine m.store v) : H.Ok none (fun _ m' => H.Fine m'.store v) (Run.assign o.id o.name v) m := by
  rcases assign_cases o.id o.name v m with ⟨f, hf, hr⟩ | ⟨hn, hr⟩
  · have hl := Store.Later.define_held (m.holds_of_holder? hf) v
    exact .of_eq hr ⟨hl, h.define f _ hv, rfl, rfl, rfl⟩ (hv.later hl)
  · exact .of_eq hr (.refl h) (.inr ⟨c, o, m, hc, ho, hn, rfl⟩)

theorem ok_print (h : H.StoreFits m.store) (text : String) : H.Ok none (fun _ _ => True) (Run.print text) m := by
  obtain ⟨sink, hs, hr | hr⟩ := print_cases text m
  · exact .of_eq hr ⟨.refl _ _, h, rfl, rfl, hs⟩ trivial
  · exact .of_eq hr ⟨.refl _ _, h, rfl, rfl, hs⟩ (.inl (by simp))

theorem ok_define {g : FrameId} (h : H.StoreFits m.store) (hg : m.here = g) (x : String) {v : Value}
    (hv : H.Fine m.store v) : H.Ok (some g) (fun _ m' => m' = m.define g x v) (Run.define x v) m := by
  subst hg
  have hr : Run.define x v m = (.value (), m.define m.here x v) := rfl
  exact .of_eq hr ⟨.define _ _ _ _, h.define _ _ hv, rfl, rfl, rfl⟩ rfl

theorem ok_applyUnary (h : H.StoreFits m.store) (t : Token) (v : Value) : H.Ok none H.FineOn (applyUnary t v) m := by
  unfold applyUnary
  split
  · exact .pure h trivial
  · exact .pure h trivial
  · exact .fail h (by simp)

theorem ok_applyArithmetic (h : H.StoreFits m.store) (t : Token) (x y : Number) :
    H.Ok none H.FineOn (applyArithmetic t x y) m := by
  unfold applyArithmetic
  split <;> first | exact .pure h trivial | exact .fail h (by simp)

theorem ok_applyBinary (h : H.StoreFits m.store) (t : Token) (v w : Value) :
    H.Ok none H.FineOn (applyBinary t v w) m := by
  unfold applyBinary
  split
  · exact .pure h trivial
  · exact .pure h trivial
  · split <;> first | exact .pure h trivial | exact .fail h (by simp)
  · split
    · exact ok_applyArithmetic h t _ _
    · exact .fail h (by simp)

theorem ok_native (h : H.StoreFits m.store) (f : Native) {vs : List Value} (hv : ∀ v ∈ vs, H.Fine m.store v) :
    H.Ok none H.FineOn (f.apply vs) m := by
  unfold Native.apply
  split
  · have hr : (Run.readClock >>= fun x => pure (Value.number x) : Run Value) m =
        (.value (.number (m.clock m.ticks)), { m with ticks := m.ticks + 1 }) := rfl
    exact .of_eq hr ⟨.refl _ _, h, rfl, rfl, rfl⟩ trivial
  · refine .pure h ?_
    cases vs with
    | nil => trivial
    | cons v vs => exact hv v List.mem_cons_self
  · refine .pure h ?_
    cases hl : vs.getLast? with
    | none => trivial
    | some v => exact hv v (List.mem_of_getLast? hl)
  · exact .pure h trivial

/-! ## Expressions -/

/-- Calls keep the machine. -/
def Invokes (H : History) (n : Nat) : Prop := ∀ (f : Callable) (vs : List Value) (m : Machine),
  H.Current ⟨n, .call f vs, m⟩ → Moment.Scoped H ⟨n, .call f vs, m⟩ → H.Ok none H.FineOn (invoke n f vs) m

mutual
theorem Invokes.eval {n : Nat} (hi : H.Invokes n) : ∀ (e : Expr) {m : Machine}, H.Current ⟨n, .eval e, m⟩ →
    H.StoreFits m.store → H.Ok none H.FineOn (e.eval (invoke n)) m
  | .literal v, m, _, h => .pure h (by cases v <;> trivial)
  | .variable id name, m, hh, h => ok_lookUp h hh .read
  | .assign id name e, m, hh, h => by
    refine (hi.eval e (H.enters hh .assign) h).bind fun v m' he hk hv => ?_
    exact (ok_assign hk.fits hh (.write he) hv).bind fun _ m'' _ hk' hv' => .pure hk'.fits hv'
  | .group e, m, hh, h => hi.eval e (H.enters hh .group) h
  | .unary t e, m, hh, h =>
    (hi.eval e (H.enters hh .unary) h).bind fun v m' _ hk _ => ok_applyUnary hk.fits t v
  | .binary l t r, m, hh, h => by
    refine (hi.eval l (H.enters hh .left) h).bind fun v m' hl hk _ => ?_
    exact (hi.eval r (H.enters hh (.right hl)) hk.fits).bind fun w m'' _ hk' _ => ok_applyBinary hk'.fits t v w
  | .logical l t r, m, hh, h => by
    refine (hi.eval l (H.enters hh .logicalLeft) h).bind fun v m' hl hk hv => ?_
    cases hs : settles t v with
    | true => exact .pure hk.fits hv
    | false => exact hi.eval r (H.enters hh (.logicalRight hl hs)) hk.fits
  | .call e t es, m, hh, h => by
    refine (hi.eval e (H.enters hh .callee) h).bind fun v m₁ he hk hv => ?_
    refine (hi.evalAll es (H.enters hh (.arguments he)) hk.fits).bind fun vs m₂ hes hk' hvs => ?_
    unfold applyCall
    split
    · next f =>
      split
      · next ha =>
        exact hi f vs m₂ (H.enters hh (.apply he hes ha)) ⟨hk'.fits, hv.later hk'.later, hvs, ha⟩
      · exact .fail hk'.fits (by simp)
    · exact .fail hk'.fits (by simp)

theorem Invokes.evalAll {n : Nat} (hi : H.Invokes n) : ∀ (es : List Expr) {m : Machine},
    H.Current ⟨n, .evalAll es, m⟩ → H.StoreFits m.store →
      H.Ok none (fun vs m' => ∀ v ∈ vs, H.Fine m'.store v) (Expr.evalAll (invoke n) es) m
  | [], m, _, h => .pure h (by simp)
  | e :: es, m, hh, h => by
    refine (hi.eval e (H.enters hh .first) h).bind fun v m' he hk hv => ?_
    refine (hi.evalAll es (H.enters hh (.others he)) hk.fits).bind fun vs m'' _ hk' hvs => .pure hk'.fits ?_
    intro w hw
    rcases List.mem_cons.1 hw with rfl | hw
    · exact hv.later hk'.later
    · exact hvs w hw
end

/-! ## Statements -/

/-- The frame has kept its names, and has no new one but the declared one. -/
def GainsOnly (f : FrameId) (declared : Option String) (s s' : Store) : Prop :=
  ∀ x, s'.holds x f = true ↔ s.holds x f = true ∨ declared = some x

theorem GainsOnly.same {f : FrameId} {s s' : Store} (h : GainsOnly f none s s') (x : String) :
    s'.holds x f = s.holds x f := by
  rw [Bool.eq_iff_iff, h x]
  simp

theorem gainsOnly_none {f : FrameId} {s s' : Store} (h : ∀ x, s'.holds x f = s.holds x f) : GainsOnly f none s s' := by
  intro x
  simp [h]

theorem GainsOnly.trans {f : FrameId} {s s' s'' : Store} {o : Option String} (h : GainsOnly f none s s')
    (h' : GainsOnly f o s' s'') : GainsOnly f o s s'' := fun x => by rw [h' x, h.same]

theorem gainsOnly_define {f : FrameId} {s : Store} (hf : f < s.frames.size) (name : String) (v : Value) :
    GainsOnly f (some name) s (s.define f name v) := by
  intro x
  rw [Store.holds_define s f name v hf, Bool.or_eq_true, decide_eq_true_iff, or_comm, Option.some.injEq,
    eq_comm (a := x)]
  simp

theorem Ok.imp {post post' : α → Machine → Prop} {r : Run α} (h : H.Ok g post r m)
    (hp : ∀ a m', post a m' → post' a m') : H.Ok g post' r m := by
  rcases hr : r m with ⟨a | v | e | _, m'⟩ <;> obtain ⟨hk, he⟩ := h.of_run hr <;> refine of_eq hr hk ?_
  · exact hp a m' he
  · exact he
  · exact he
  · trivial

/-- An expression leaves the frame its names. -/
theorem Ok.same {post : α → Machine → Prop} {r : Run α} (h : H.Ok none post r m) {f : FrameId}
    (hf : f < m.store.frames.size) (g : Option FrameId) :
    H.Ok g (fun a m' => post a m' ∧ GainsOnly f none m.store m'.store) r m :=
  h.mono fun _ _ hp hk => ⟨hp, gainsOnly_none (hk.later.names f hf (by simp))⟩

/-- The current frame is placed as before if nothing was declared. -/
theorem Keeps.placed {around : Surroundings} (hk : H.Keeps g m m') (hp : H.Placed m.store around m.here)
    (hd : GainsOnly m.here none m.store m'.store) : H.Placed m'.store around m'.here := by
  rw [hk.here]
  exact hp.later hk.later hd.same

theorem Invokes.optionalEval {n : Nat} (hi : H.Invokes n) {o : Option Expr}
    (hh : ∀ e, o = some e → H.Current ⟨n, .eval e, m⟩) (h : H.StoreFits m.store) :
    H.Ok none H.FineOn (Scriptlet.optionalEval (invoke n) o) m := by
  cases o with
  | none => exact .pure h trivial
  | some e => exact hi.eval e (hh e rfl) h

/-- A statement runs well: it keeps the machine, and declares its name and no other in the current frame. -/
def Executes (H : History) (n : Nat) (t : Stmt) : Prop := ∀ m : Machine, H.Current ⟨n, .exec t, m⟩ →
  Moment.Scoped H ⟨n, .exec t, m⟩ →
    H.Ok (some m.here) (fun _ m' => GainsOnly m.here t.declared? m.store m'.store) (t.exec (invoke n) n) m

theorem Invokes.loop {n : Nat} (hi : H.Invokes n) {e : Expr} {t : Stmt} (ht : H.Executes n t) :
    ∀ (k : Nat) {m : Machine}, H.Current ⟨n, .loop e t k, m⟩ → Moment.Scoped H ⟨n, .loop e t k, m⟩ →
      H.Ok (some m.here) (fun _ m' => GainsOnly m.here none m.store m'.store)
        (Scriptlet.loop (e.eval (invoke n)) (t.exec (invoke n) n) k) m
  | 0, m, _, hf => .of_eq rfl (.refl hf.1) trivial
  | k + 1, m, hh, ⟨hs, around, hp, hst, hpr, hkn⟩ => by
    have hkt : ∀ p ∈ t.places around, H.Known p := fun p hp => hkn p (List.mem_append_right _ hp)
    rw [loop_succ]
    refine ((hi.eval e (H.enters hh .loopTest) hs).same hp.lt _).bind fun v m₁ he hk ⟨_, hd⟩ => ?_
    split
    · next hv =>
      have hp₁ := hk.placed hp hd
      have hb := ht _ (H.enters hh (.loopBody he hv)) ⟨hk.fits, around, hp₁, hst.part rfl hpr.1, hpr.2, hkt⟩
      rw [hk.here, hpr.1] at hb
      refine hb.bind fun _ m₂ hb hk₂ hd₂ => ?_
      have hp₂ := hk₂.placed hp₁ (by rw [hk.here]; exact hd₂)
      have hl := Invokes.loop hi ht k (H.enters hh (.loopAgain he hv hb)) ⟨hk₂.fits, around, hp₂, hst, hpr, hkn⟩
      rw [hk₂.here, hk.here] at hl
      exact hl.imp fun _ _ hd₃ => hd.trans (hd₂.trans hd₃)
    · exact .pure hk.fits hd

theorem exec_block (inv : Invoke) (k : Nat) (body : List Stmt) (m : Machine) : (Stmt.block body).exec inv k m =
    ((Stmt.execAll inv k body (m.opened m.here)).1,
      { (Stmt.execAll inv k body (m.opened m.here)).2 with here := m.here }) := rfl

theorem exec_function (inv : Invoke) (k : Nat) (name : Token) (params : List Token) (body : List Stmt) (m : Machine) :
    (Stmt.function name params body).exec inv k m =
      (.value (), { m.define m.here name.lexeme (.callable (.closure m.fresh ⟨name, params, body⟩ m.here)) with
        fresh := m.fresh + 1 }) := rfl

/-- A run in a frame that was not there is kept within it. -/
theorem Keeps.within {f : FrameId} {m₁ : Machine} (hl : m.store.Later none m₁.store) (hf : m.store.frames.size ≤ f)
    (hb : m₁.bindings = m.bindings) (hs : m₁.sink = m.sink) (hk : H.Keeps (some f) m₁ m') :
    H.Keeps none m { m' with here := m.here } :=
  ⟨hl.of_new hk.later hf, hk.fits, rfl, hk.bindings.trans hb, hs ▸ hk.flushable⟩

theorem Ends.imp {post post' : α → Machine → Prop} {signal : Signal α} (h : H.Ends post signal m)
    (hs : m'.store = m.store) (hp : ∀ a, post a m → post' a m') : H.Ends post' signal m' := by
  cases signal with
  | value a => exact hp a h
  | returned v =>
    have h : H.Fine m.store v := h
    rw [← hs] at h
    exact h
  | failed f => exact h
  | spent => trivial

theorem Keeps.declares {f : FrameId} (hk : H.Keeps none m m') (hf : f < m.store.frames.size) :
    GainsOnly f none m.store m'.store := gainsOnly_none (hk.later.names f hf (by simp))

/-- A function statement. -/
theorem executes_function (n : Nat) (name : Token) (params : List Token) (body : List Stmt) :
    H.Executes n (.function name params body) := by
  rintro m - ⟨hs, around, hp, hst, hpr, hkn⟩
  have hl := Store.Later.define m.store m.here name.lexeme
    (.callable (.closure m.fresh ⟨name, params, body⟩ m.here))
  have hd : GainsOnly m.here (some name.lexeme) _ _ :=
    gainsOnly_define hp.lt name.lexeme (.callable (.closure m.fresh ⟨name, params, body⟩ m.here))
  have hv : H.Fine (m.store.define m.here name.lexeme (.callable (.closure m.fresh ⟨name, params, body⟩ m.here)))
      (.callable (.closure m.fresh ⟨name, params, body⟩ m.here)) :=
    ⟨around, hp.nested hst hl (fun x hx => (hd x).2 (.inr hx)), hpr, hkn⟩
  refine .of_eq (exec_function _ _ _ _ _ _) ⟨hl, hs.later hl fun g c hc => ?_, rfl, rfl, rfl⟩ hd
  · rcases Store.mem_cells_define hc with hc | hc
    · exact .inl (by rw [hc]; exact hv)
    · exact .inr hc

/-- A variable statement. -/
theorem Invokes.var {n : Nat} (hi : H.Invokes n) (name : Token) (o : Option Expr) : H.Executes n (.var name o) := by
  rintro m hh ⟨hs, around, hp, hst, hpr, hkn⟩
  have he : H.Ok none H.FineOn (Scriptlet.optionalEval (invoke n) o) m :=
    hi.optionalEval (fun e he => by subst he; exact H.enters hh .initializer) hs
  refine (he.same hp.lt _).bind fun v m₁ _ hk ⟨hv, hd⟩ => ?_
  have hlt : m.here < m₁.store.frames.size := Nat.lt_of_lt_of_le hp.lt hk.later.size
  refine (ok_define hk.fits hk.here name.lexeme hv).imp fun _ m₂ hm₂ => ?_
  rw [hm₂]
  exact hd.trans (gainsOnly_define hlt name.lexeme v)

/-- A block finds an empty frame inside the frames around it. -/
theorem scoped_block {n : Nat} {body : List Stmt} (hh : H.Current ⟨n, .exec (.block body), m⟩)
    (hf : Moment.Scoped H ⟨n, .exec (.block body), m⟩) : Moment.Scoped H ⟨n, .execAll body, m.opened m.here⟩ := by
  obtain ⟨hs, around, hp, hst, hpr, hkn⟩ := hf
  have hx : ∀ x, (m.store.add (some m.here)).2.holds x m.store.frames.size = true ↔
      x ∈ (LocalScope.block body).params.map Token.lexeme := fun x => by
    rw [Store.holds_add, Store.holds_new]
    simp [LocalScope.params]
  have hin := (hp.nested hst (.refl none _) (fun _ hx => by cases hx)).opened ⟨_, H.happened hh, rfl⟩ (.refl none _) hx
  have hfits : H.StoreFits (m.store.add (some m.here)).2 := StoreFits.add hs _
  exact ⟨hfits, some (.block body, around), 0, hin, fun g hg => by cases hg; rfl, hpr, hkn⟩

mutual
theorem Invokes.exec {n : Nat} (hi : H.Invokes n) : ∀ t : Stmt, H.Executes n t
  | .block body => by
    rintro m hh hf
    have hlt : m.here < m.store.frames.size := by
      obtain ⟨-, around, hp, -⟩ := hf
      exact hp.lt
    have hb := Invokes.execAll hi body (H.enters hh .block) (scoped_block hh hf)
    have hl : m.store.Later none (m.opened m.here).store := .add m.store (some m.here)
    have hk : H.Keeps none m _ := .within hl (Nat.le_refl _) rfl rfl hb.keeps
    exact .of_eq (exec_block _ _ _ _) (hk.weaken _) (hb.ends.imp rfl fun _ _ => hk.declares hlt)
  | .expression e => by
    rintro m hh ⟨hs, around, hp, hst, hpr, hkn⟩
    refine ((hi.eval e (H.enters hh .expression) hs).same hp.lt _).bind fun v m₁ _ hk ⟨_, hd⟩ => ?_
    exact .pure hk.fits hd
  | .function name params body => executes_function n name params body
  | .conditional e yes no => by
    rintro m hh ⟨hs, around, hp, hst, hpr, hkn⟩
    obtain ⟨hyd, hyp, hno⟩ := Stmt.proper_conditional.1 hpr
    rw [Stmt.places_conditional] at hkn
    rw [exec_conditional]
    refine ((hi.eval e (H.enters hh .test) hs).same hp.lt _).bind fun v m₁ he hk ⟨_, hd⟩ => ?_
    have hp₁ := hk.placed hp hd
    split
    · next hv =>
      have hy := Invokes.exec hi yes _ (H.enters hh (.yes he hv)) ⟨hk.fits, around, hp₁, hst.part rfl hyd, hyp,
        fun p hp => hkn p (List.mem_append_left _ (List.mem_append_right _ hp))⟩
      rw [hk.here, hyd] at hy
      exact hy.imp fun _ _ hd' => hd.trans hd'
    · next hv =>
      cases no with
      | none => exact .pure hk.fits hd
      | some t =>
        obtain ⟨htd, htp⟩ := hno t rfl
        have ht := Invokes.exec hi t _ (H.enters hh (.no he (by simpa using hv))) ⟨hk.fits, around, hp₁,
          hst.part rfl htd, htp, fun p hp => hkn p (List.mem_append_right _ hp)⟩
        rw [hk.here, htd] at ht
        exact ht.imp fun _ _ hd' => hd.trans hd'
  | .print e => by
    rintro m hh ⟨hs, around, hp, hst, hpr, hkn⟩
    refine ((hi.eval e (H.enters hh .print) hs).same hp.lt _).bind fun v m₁ _ hk ⟨_, hd⟩ => ?_
    have hlt : m.here < m₁.store.frames.size := Nat.lt_of_lt_of_le hp.lt hk.later.size
    exact ((ok_print hk.fits v.display).same hlt _).imp fun _ _ h => hd.trans h.2
  | .return t o => by
    rintro m hh ⟨hs, around, hp, hst, hpr, hkn⟩
    have he : H.Ok none H.FineOn (Scriptlet.optionalEval (invoke n) o) m :=
      hi.optionalEval (fun e he => by subst he; exact H.enters hh .return) hs
    refine (he.same hp.lt _).bind fun v m₁ _ hk ⟨hv, _⟩ => ?_
    have hr : Run.leave v m₁ = ((.returned v : Signal Unit), m₁) := rfl
    exact .of_eq hr (.refl hk.fits) hv
  | .var name o => hi.var name o
  | .while e t => by
    rintro m hh hf
    exact hi.loop (Invokes.exec hi t) n (H.enters hh .while) hf

/-- **A list of statements keeps frames and scopes together.** -/
theorem Invokes.execAll {n : Nat} (hi : H.Invokes n) : ∀ (ts : List Stmt) {m : Machine}, H.Current ⟨n, .execAll ts, m⟩ →
    Moment.Scoped H ⟨n, .execAll ts, m⟩ → H.Ok (some m.here) (fun _ _ => True) (Stmt.execAll (invoke n) n ts) m
  | [], m, _, hf => .pure hf.1 trivial
  | t :: ts, m, hh, ⟨hs, ground, i, hp, hg, hpr, hkn⟩ => by
    have ht := Invokes.exec hi t _ (H.enters hh .head)
      ⟨hs, ground.around i, hp, hg.stands, hpr.1, fun p hp => hkn p (List.mem_append_left _ hp)⟩
    refine ht.bind fun _ m₁ he hk hd => ?_
    have hp₁ : H.Placed m₁.store (ground.around (i + 1)) m₁.here := by
      rw [hk.here]
      exact hp.next hg hk.later hd
    have hts := Invokes.execAll hi ts (H.enters hh (.tail he))
      ⟨hk.fits, ground, i + 1, hp₁, hg.tail, hpr.2, fun p hp => hkn p (List.mem_append_right _ hp)⟩
    rw [hk.here] at hts
    exact hts
end

/-! ## Calls -/

theorem called_eq (m : Machine) (f : Function) (frame : FrameId) (vs : List Value) : m.called f frame vs =
    { m with store := (m.store.add (some frame)).2.boundIn m.store.frames.size f.params vs,
             here := m.store.frames.size } := by
  rw [Machine.called, bindParams_eq]
  rfl

theorem invoke_closure (n id : Nat) (f : Function) (frame : FrameId) (vs : List Value) (m : Machine) :
    invoke (n + 1) (.closure id f frame) vs m =
      Run.result (fun m' => ((Stmt.execAll (invoke n) n f.body (m.called f frame vs)).1,
        { (Stmt.execAll (invoke n) n f.body (m.called f frame vs)).2 with here := m'.here })) m := by
  rw [called_eq]
  exact enter_call frame f.params vs (fun inner => Run.result (Run.within inner (Stmt.execAll (invoke n) n f.body))) m

/-- A function finds its parameters in a new frame inside the frames it closes over. -/
theorem scoped_called {f : Function} {frame : FrameId} {vs : List Value} {n id : Nat}
    (hh : H.Current ⟨n + 1, .call (.closure id f frame) vs, m⟩)
    (hf : Moment.Scoped H ⟨n + 1, .call (.closure id f frame) vs, m⟩) :
    Moment.Scoped H ⟨n, .execAll f.body, m.called f frame vs⟩ ∧ m.store.Later none (m.called f frame vs).store := by
  obtain ⟨hs, ⟨around, hn, hp, hk⟩, hvs, hlen⟩ := hf
  have hs : H.StoreFits m.store := hs
  have hadd := Store.Later.add m.store (some frame)
  have hb := Store.later_boundIn m.store.frames.size f.params vs (m.store.add (some frame)).2
  have hx : ∀ x, ((m.store.add (some frame)).2.boundIn m.store.frames.size f.params vs).holds x m.store.frames.size =
      true ↔ x ∈ (LocalScope.function f).params.map Token.lexeme := fun x => by
    rw [Store.holds_boundIn _ _ _ _ _ hlen (by rw [Store.size_add]; exact Nat.lt_succ_self _), Store.holds_add,
      Store.holds_new]
    simp [LocalScope.params]
  have hplaced := hn.opened ⟨_, H.happened hh, rfl⟩ hb hx
  have hfits := (hs.add (some frame)).later hb fun g c hc => by
    rcases Store.mem_cells_boundIn _ _ _ hc with hc | hc
    · exact .inl (((hvs _ hc).later hadd).later hb)
    · exact .inr hc
  rw [called_eq]
  exact ⟨⟨hfits, some (.function f, around), 0, hplaced, fun g hg => by cases hg; rfl, hp, hk⟩,
    hadd.of_new hb (Nat.le_refl _)⟩

/-- **Calls keep frames and scopes together.** -/
theorem invokes (H : History) : ∀ n, H.Invokes n
  | 0, .native _ f, vs, m, _, hf => ok_native hf.1 f hf.2.2.1
  | n + 1, .native _ f, vs, m, _, hf => ok_native hf.1 f hf.2.2.1
  | 0, .closure id f frame, vs, m, _, hf => .of_eq rfl (.refl hf.1) trivial
  | n + 1, .closure id f frame, vs, m, hh, hf => by
    obtain ⟨hscoped, hl⟩ := scoped_called hh hf
    have hb := (invokes H n).execAll f.body (H.enters hh .body) hscoped
    have hhere : (m.called f frame vs).here = m.store.frames.size := by rw [called_eq]
    have hbind : (m.called f frame vs).bindings = m.bindings := by rw [called_eq]
    have hsink : (m.called f frame vs).sink = m.sink := by rw [called_eq]
    rw [hhere] at hb
    rcases hr : Stmt.execAll (invoke n) n f.body (m.called f frame vs) with ⟨signal, m'⟩
    obtain ⟨hk, he⟩ := hb.of_run hr
    have hk' : H.Keeps none m { m' with here := m.here } := .within hl (Nat.le_refl _) hbind hsink hk
    have hi := invoke_closure n id f frame vs m
    rw [hr] at hi
    cases signal with
    | value u => exact .of_eq hi hk' trivial
    | returned v => exact .of_eq hi hk' he
    | failed f => exact .of_eq hi hk' he
    | spent => exact .of_eq hi hk' trivial

end History

/-! ## From moment to moment -/

namespace Moment.Scoped

variable {H : History}

/-- The frames fit the scopes when an expression before has run. -/
theorem after_eval {n : Nat} {m m' : Machine} {e : Expr} {v : Value} (hh : H.Current ⟨n, .eval e, m⟩)
    (hs : H.StoreFits m.store) (he : e.eval (invoke n) m = (.value v, m')) :
    H.StoreFits m'.store ∧ (∀ {around}, H.Placed m.store around m.here → H.Placed m'.store around m'.here) ∧
      m'.bindings = m.bindings := by
  obtain ⟨hk, -⟩ := ((H.invokes n).eval e hh hs).of_run he
  exact ⟨hk.fits, fun hp => hk.placed hp (hk.declares hp.lt), hk.bindings⟩

/-- **One step into a run keeps frames and scopes together**, and the table. -/
theorem enters {c c' : Moment} (h : c.Scoped H) (hh : H.Current c) (he : Enters c c') :
    c'.Scoped H ∧ c'.machine.bindings = c.machine.bindings := by
  cases he with
  | assign =>
    obtain ⟨hs, around, hp, hk⟩ := h
    exact ⟨⟨hs, around, hp, fun o ho => hk o (List.mem_append_left _ ho)⟩, rfl⟩
  | group => exact ⟨h, rfl⟩
  | unary => exact ⟨h, rfl⟩
  | left =>
    obtain ⟨hs, around, hp, hk⟩ := h
    exact ⟨⟨hs, around, hp, fun o ho => hk o (List.mem_append_left _ ho)⟩, rfl⟩
  | right hl =>
    obtain ⟨hs, around, hp, hk⟩ := h
    obtain ⟨hs', hp', hb'⟩ := after_eval (H.enters hh .left) hs hl
    exact ⟨⟨hs', around, hp' hp, fun o ho => hk o (List.mem_append_right _ ho)⟩, hb'⟩
  | logicalLeft =>
    obtain ⟨hs, around, hp, hk⟩ := h
    exact ⟨⟨hs, around, hp, fun o ho => hk o (List.mem_append_left _ ho)⟩, rfl⟩
  | logicalRight hl _ =>
    obtain ⟨hs, around, hp, hk⟩ := h
    obtain ⟨hs', hp', hb'⟩ := after_eval (H.enters hh .logicalLeft) hs hl
    exact ⟨⟨hs', around, hp' hp, fun o ho => hk o (List.mem_append_right _ ho)⟩, hb'⟩
  | callee =>
    obtain ⟨hs, around, hp, hk⟩ := h
    exact ⟨⟨hs, around, hp, fun o ho => hk o (List.mem_append_left _ ho)⟩, rfl⟩
  | arguments hl =>
    obtain ⟨hs, around, hp, hk⟩ := h
    obtain ⟨hs', hp', hb'⟩ := after_eval (H.enters hh .callee) hs hl
    exact ⟨⟨hs', around, hp' hp, fun o ho => hk o (List.mem_append_right _ ho)⟩, hb'⟩
  | @apply n m e t es f vs m₁ m₂ hl hes ha =>
    obtain ⟨hs, around, hp, hk⟩ := h
    obtain ⟨hk₁, hf⟩ := ((H.invokes n).eval e (H.enters hh .callee) hs).of_run hl
    obtain ⟨hk₂, hvs⟩ := ((H.invokes n).evalAll es (H.enters hh (.arguments hl)) hk₁.fits).of_run hes
    have hf : H.Fine m₁.store (.callable f) := hf
    exact ⟨⟨hk₂.fits, hf.later hk₂.later, hvs, ha⟩, hk₂.bindings.trans hk₁.bindings⟩
  | first =>
    obtain ⟨hs, around, hp, hk⟩ := h
    exact ⟨⟨hs, around, hp, fun o ho => hk o (List.mem_append_left _ ho)⟩, rfl⟩
  | others hl =>
    obtain ⟨hs, around, hp, hk⟩ := h
    obtain ⟨hs', hp', hb'⟩ := after_eval (H.enters hh .first) hs hl
    exact ⟨⟨hs', around, hp' hp, fun o ho => hk o (List.mem_append_right _ ho)⟩, hb'⟩
  | block => exact ⟨History.scoped_block hh h, rfl⟩
  | expression =>
    obtain ⟨hs, around, hp, -, -, hk⟩ := h
    exact ⟨⟨hs, around, hp, fun o ho => hk _ (List.mem_map_of_mem ho)⟩, rfl⟩
  | test =>
    obtain ⟨hs, around, hp, -, -, hk⟩ := h
    rw [Stmt.places_conditional] at hk
    exact ⟨⟨hs, around, hp, fun o ho =>
      hk _ (List.mem_append_left _ (List.mem_append_left _ (List.mem_map_of_mem ho)))⟩, rfl⟩
  | yes hl _ =>
    obtain ⟨hs, around, hp, hst, hpr, hk⟩ := h
    obtain ⟨hyd, hyp, -⟩ := Stmt.proper_conditional.1 hpr
    obtain ⟨hs', hp', hb'⟩ := after_eval (H.enters hh .test) hs hl
    rw [Stmt.places_conditional] at hk
    exact ⟨⟨hs', around, hp' hp, hst.part rfl hyd, hyp,
      fun p hp => hk p (List.mem_append_left _ (List.mem_append_right _ hp))⟩, hb'⟩
  | no hl _ =>
    obtain ⟨hs, around, hp, hst, hpr, hk⟩ := h
    obtain ⟨-, -, hno⟩ := Stmt.proper_conditional.1 hpr
    obtain ⟨hnd, hnp⟩ := hno _ rfl
    obtain ⟨hs', hp', hb'⟩ := after_eval (H.enters hh .test) hs hl
    exact ⟨⟨hs', around, hp' hp, hst.part rfl hnd, hnp, fun p hp => hk p (List.mem_append_right _ hp)⟩, hb'⟩
  | print =>
    obtain ⟨hs, around, hp, -, -, hk⟩ := h
    exact ⟨⟨hs, around, hp, fun o ho => hk _ (List.mem_map_of_mem ho)⟩, rfl⟩
  | «return» =>
    obtain ⟨hs, around, hp, -, -, hk⟩ := h
    exact ⟨⟨hs, around, hp, fun o ho => hk _ (List.mem_map_of_mem ho)⟩, rfl⟩
  | initializer =>
    obtain ⟨hs, around, hp, -, -, hk⟩ := h
    exact ⟨⟨hs, around, hp, fun o ho => hk _ (List.mem_map_of_mem ho)⟩, rfl⟩
  | «while» => exact ⟨h, rfl⟩
  | loopTest =>
    obtain ⟨hs, around, hp, -, -, hk⟩ := h
    exact ⟨⟨hs, around, hp, fun o ho => hk _ (List.mem_append_left _ (List.mem_map_of_mem ho))⟩, rfl⟩
  | loopBody hl _ =>
    obtain ⟨hs, around, hp, hst, hpr, hk⟩ := h
    obtain ⟨hs', hp', hb'⟩ := after_eval (H.enters hh .loopTest) hs hl
    exact ⟨⟨hs', around, hp' hp, hst.part rfl hpr.1, hpr.2, fun p hp => hk p (List.mem_append_right _ hp)⟩, hb'⟩
  | @loopAgain n m e t k v m₁ m₂ hl hv hb =>
    obtain ⟨hs, around, hp, hst, hpr, hk⟩ := h
    obtain ⟨hs', hp', hb'⟩ := after_eval (H.enters hh .loopTest) hs hl
    have hp₁ := hp' hp
    obtain ⟨hk₂, hd⟩ := ((H.invokes n).exec t m₁ (H.enters hh (.loopBody hl hv)) ⟨hs', around, hp₁, hst.part rfl hpr.1,
      hpr.2, fun p hp => hk p (List.mem_append_right _ hp)⟩).of_run hb
    have hd : History.GainsOnly m₁.here t.declared? m₁.store m₂.store := hd
    rw [hpr.1] at hd
    exact ⟨⟨hk₂.fits, around, hk₂.placed hp₁ hd, hst, hpr, hk⟩, hk₂.bindings.trans hb'⟩
  | head =>
    obtain ⟨hs, ground, i, hp, hg, hpr, hk⟩ := h
    exact ⟨⟨hs, ground.around i, hp, hg.stands, hpr.1, fun p hp => hk p (List.mem_append_left _ hp)⟩, rfl⟩
  | @tail n m t ts m' ht =>
    obtain ⟨hs, ground, i, hp, hg, hpr, hk⟩ := h
    obtain ⟨hk', hd⟩ := ((H.invokes n).exec t m (H.enters hh .head) ⟨hs, ground.around i, hp, hg.stands, hpr.1,
      fun p hp => hk p (List.mem_append_left _ hp)⟩).of_run ht
    refine ⟨⟨hk'.fits, ground, i + 1, ?_, hg.tail, hpr.2, fun p hp => hk p (List.mem_append_right _ hp)⟩, hk'.bindings⟩
    rw [hk'.here]
    exact hp.next hg hk'.later hd
  | body => exact ⟨(History.scoped_called hh h).1, by rw [History.called_eq]⟩

/-- **Every moment of a run keeps frames and scopes together.** -/
theorem reaches {c c' : Moment} (h : c.Scoped H) (hh : H.Current c) (hr : Reaches c c') :
    c'.Scoped H ∧ H.Current c' ∧ c'.machine.bindings = c.machine.bindings := by
  induction hr with
  | refl => exact ⟨h, hh, rfl⟩
  | tail _ he ih =>
    obtain ⟨hf, hh', hb⟩ := ih
    obtain ⟨hf', hb'⟩ := hf.enters hh' he
    exact ⟨hf', H.enters hh' he, hb'.trans hb⟩

end Moment.Scoped
end Scriptlet
