import Mathlib
import Scriptlet.Proofs.Preservation

/-!
# Where runs can get

A run starts from the current frame, the global one and the functions at hand, and gets from a frame only to the frames
around it and to those that functions in its cells close over.  A `Territory` is a property of the store together with a
set of frames that is closed in this way.  Whatever is run in it, and however that ends, the run stays in it
(`Territory.left`): it restores the current frame, and adds names to that frame only and only if it declares.  So do all
the runs that it starts (`Territory.enters`).
-/
namespace Scriptlet

/-- A declaration, or a statement with a branch or a body that is one. -/
def Stmt.declares : Stmt → Bool
  | .function _ _ _ => true
  | .var _ _ => true
  | .conditional _ yes no => yes.declares ||
      match no with
      | none => false
      | some s => s.declares
  | .while _ body => body.declares
  | _ => false

/-- In a parsed tree branches and bodies are no declarations. -/
theorem Stmt.declares_of_proper : ∀ s : Stmt, s.Proper → s.declared? = none → s.declares = false
  | .block _, _, _ => rfl
  | .expression _, _, _ => rfl
  | .conditional _ yes none, h, _ => by simp [declares, declares_of_proper yes h.2.1 h.1]
  | .conditional _ yes (some no), h, _ => by
    simp [declares, declares_of_proper yes h.2.1 h.1, declares_of_proper no h.2.2.2 h.2.2.1]
  | .print _, _, _ => rfl
  | .return _ _, _, _ => rfl
  | .while _ body, h, _ => declares_of_proper body h.2 h.1

/-- The frame to which a run may add names. -/
def target (declares : Bool) (here : FrameId) : Option FrameId := if declares then some here else none

theorem Store.Later.of_target {b : Bool} {f : FrameId} {s s' : Store} (h : s.Later (target b f) s') :
    s.Later (some f) s' := by
  cases b
  · exact h.weaken _
  · exact h

/-! ## Territories -/

/-- A property of stores, and the frames that a run can get to.  The property survives a change of their cells to values
that close over such frames, and new frames inside them. -/
structure Territory where
  Allows : Store → Prop
  Has : Store → FrameId → Prop
  globals {s : Store} : Allows s → Has s Machine.globals
  around {s : Store} {f g : FrameId} : Allows s → Has s f → g ∈ s.chain f → Has s g
  stored {s : Store} {f g : FrameId} {c : String × Value} : Allows s → Has s f → c ∈ s.cells f → c.2.frame? = some g →
    Has s g
  later {s s' : Store} {f : FrameId} {g : Option FrameId} : Has s f → s.Later g s' → Has s' f
  define {s : Store} {f : FrameId} {v : Value} (x : String) : Allows s → Has s f → (∀ g, v.frame? = some g → Has s g) →
    Allows (s.define f x v)
  add {s : Store} {f : FrameId} : Allows s → Has s f →
    Allows (s.add (some f)).2 ∧ Has (s.add (some f)).2 s.frames.size

namespace Territory

/-- All frames, with no condition on the store. -/
def all : Territory where
  Allows _ := True
  Has _ _ := True
  globals _ := trivial
  around _ _ _ := trivial
  stored _ _ _ _ := trivial
  later _ _ := trivial
  define _ _ _ _ := trivial
  add _ _ := ⟨trivial, trivial⟩

variable (T : Territory)

/-- A value that closes over no other frame. -/
def Owns (s : Store) (v : Value) : Prop := ∀ f, v.frame? = some f → T.Has s f

/-- The machine is in the territory. -/
structure At (m : Machine) : Prop where
  allowed : T.Allows m.store
  here : T.Has m.store m.here

/-- What a run makes of a machine. -/
structure Leaves (declares : Bool) (m m' : Machine) : Prop where
  allowed : T.Allows m'.store
  here : m'.here = m.here
  later : m.store.Later (target declares m.here) m'.store

/-- What a run ends with. -/
def Yields {α : Type} (P : α → Store → Prop) : Signal α → Store → Prop
  | .value a, s => P a s
  | .returned v, s => T.Owns s v
  | _, _ => True

/-- The run stays in the territory, whatever it ends with. -/
structure Stays {α : Type} (declares : Bool) (P : α → Store → Prop) (r : Run α) (m : Machine) : Prop where
  leaves : T.Leaves declares m (r m).2
  yields : T.Yields P (r m).1 (r m).2.store

variable {T} {α β : Type} {b : Bool} {m m' m'' : Machine}

theorem Owns.later {s s' : Store} {g : Option FrameId} {v : Value} (h : T.Owns s v) (hl : s.Later g s') : T.Owns s' v :=
  fun f hf => T.later (h f hf) hl

theorem owns_of_plain {s : Store} {v : Value} (h : ∀ f, v ≠ .callable f) : T.Owns s v := fun f hf => by
  rw [Value.frame?_of_plain h] at hf
  cases hf

theorem At.of_leaves (h : T.At m) (hk : T.Leaves b m m') : T.At m' :=
  ⟨hk.allowed, by rw [hk.here]; exact T.later h.here hk.later⟩

namespace Leaves

theorem refl (h : T.Allows m.store) : T.Leaves b m m := ⟨h, rfl, .refl _ _⟩

theorem trans (h : T.Leaves b m m') (h' : T.Leaves b m' m'') : T.Leaves b m m'' :=
  ⟨h'.allowed, h'.here.trans h.here, h.later.trans (h.here ▸ h'.later)⟩

theorem mono {b' : Bool} (h : T.Leaves b m m') (hb : b = true → b' = true) : T.Leaves b' m m' := by
  refine ⟨h.allowed, h.here, ?_⟩
  cases b
  · exact h.later.weaken _
  · rw [hb rfl]
    exact h.later

/-- A run in a frame that was not there adds no name to those that were. -/
theorem within {m₁ : Machine} (h : T.Leaves b m₁ m') (hl : m.store.Later none m₁.store)
    (hf : m.store.frames.size ≤ m₁.here) : T.Leaves false m { m' with here := m.here } :=
  ⟨h.allowed, rfl, hl.of_new h.later.of_target hf⟩

end Leaves

namespace Stays

variable {P : α → Store → Prop} {r : Run α}

theorem of_eq {signal : Signal α} (h : r m = (signal, m')) (hk : T.Leaves b m m') (he : T.Yields P signal m'.store) :
    T.Stays b P r m := by
  refine ⟨?_, ?_⟩ <;> rw [h]
  · exact hk
  · exact he

theorem of_run {signal : Signal α} (h : T.Stays b P r m) (hr : r m = (signal, m')) :
    T.Leaves b m m' ∧ T.Yields P signal m'.store := by
  obtain ⟨hk, he⟩ := h
  rw [hr] at hk he
  exact ⟨hk, he⟩

theorem pure {a : α} (h : T.Allows m.store) (hp : P a m.store) : T.Stays b P (Pure.pure a) m := of_eq rfl (.refl h) hp

theorem fail {f : Fault} (h : T.Allows m.store) : T.Stays b P (Run.fail f) m := of_eq rfl (.refl h) trivial

theorem mono {b' : Bool} {Q : α → Store → Prop} (h : T.Stays b P r m) (hb : b = true → b' = true)
    (hp : ∀ a s, P a s → Q a s) : T.Stays b' Q r m := by
  rcases hr : r m with ⟨a | v | e | _, m'⟩ <;> obtain ⟨hk, he⟩ := h.of_run hr <;> refine of_eq hr (hk.mono hb) ?_
  · exact hp a m'.store he
  · exact he
  · trivial
  · trivial

/-- **A sequence stays if its parts do**, the second one on what the first has left. -/
theorem bind {f : α → Run β} {Q : β → Store → Prop} (h : T.Stays b P r m)
    (hf : ∀ a m', r m = (.value a, m') → T.Leaves b m m' → P a m'.store → T.Stays b Q (f a) m') :
    T.Stays b Q (r >>= f) m := by
  rcases hr : r m with ⟨a | v | e | _, m'⟩ <;> obtain ⟨hk, he⟩ := h.of_run hr
  · rcases hfa : f a m' with ⟨signal, m''⟩
    obtain ⟨hk', he'⟩ := (hf a m' hr hk he).of_run hfa
    exact of_eq (by rw [Run.bind_def, hr, ← hfa]) (hk.trans hk') he'
  · exact of_eq (by rw [Run.bind_def, hr]) hk (show T.Yields Q (.returned v) m'.store from he)
  · exact of_eq (by rw [Run.bind_def, hr]) hk (show T.Yields Q (.failed e) m'.store from trivial)
  · exact of_eq (by rw [Run.bind_def, hr]) hk (show T.Yields Q .spent m'.store from trivial)

end Stays

/-! ## Steps -/

/-- The frame that holds the variable of an occurrence is one that the run can get to. -/
theorem At.has_holder (h : T.At m) {id : Nat} {x : String} {f : FrameId} (hf : m.holder? id x = some f) :
    T.Has m.store f := by
  unfold Machine.holder? at hf
  split at hf
  · exact T.around h.allowed h.here (List.mem_of_getElem? (Option.filter_eq_some_iff.1 hf).1)
  · exact T.around h.allowed (T.globals h.allowed) (List.mem_of_find?_eq_some hf)

theorem stays_lookUp (h : T.At m) (id : Nat) (name : Token) :
    T.Stays b (fun v s => T.Owns s v) (Run.lookUp id name) m := by
  rcases lookUp_cases id name m with ⟨f, v, hf, hv, hr⟩ | ⟨-, hr⟩
  · refine .of_eq hr (.refl h.allowed) fun g hg => ?_
    obtain ⟨l, l', hc, -⟩ := List.lookup_eq_some_iff.1 hv
    exact T.stored (c := (name.lexeme, v)) h.allowed (h.has_holder hf) (by rw [hc]; simp) hg
  · exact .of_eq hr (.refl h.allowed) trivial

theorem stays_assign (h : T.At m) (id : Nat) (name : Token) {v : Value} (hv : T.Owns m.store v) :
    T.Stays false (fun _ _ => True) (Run.assign id name v) m := by
  rcases assign_cases id name v m with ⟨f, hf, hr⟩ | ⟨-, hr⟩
  · have hl := Store.Later.define_held (m.holds_of_holder? hf) v
    exact .of_eq hr ⟨T.define _ h.allowed (h.has_holder hf) hv, rfl, hl⟩ trivial
  · exact .of_eq hr (.refl h.allowed) trivial

theorem stays_print (h : T.Allows m.store) (text : String) : T.Stays b (fun _ _ => True) (Run.print text) m := by
  obtain ⟨sink, -, hr | hr⟩ := print_cases text m
  · exact .of_eq hr ⟨h, rfl, .refl _ _⟩ trivial
  · exact .of_eq hr ⟨h, rfl, .refl _ _⟩ trivial

theorem stays_define (h : T.At m) (x : String) {v : Value} (hv : T.Owns m.store v) :
    T.Stays true (fun _ _ => True) (Run.define x v) m := by
  have hr : Run.define x v m = (.value (), m.define m.here x v) := rfl
  exact .of_eq hr ⟨T.define x h.allowed h.here hv, rfl, .define _ _ _ _⟩ trivial

theorem stays_neutral {r : Run Value} (hr : Neutral r) (h : T.Allows m.store) :
    T.Stays b (fun v s => T.Owns s v) r m := by
  rcases hr with ⟨v, hv, rfl⟩ | ⟨f, rfl⟩
  · exact .pure h (owns_of_plain hv)
  · exact .fail h

theorem stays_native (h : T.Allows m.store) (f : Native) {vs : List Value} (hv : ∀ v ∈ vs, T.Owns m.store v) :
    T.Stays b (fun v s => T.Owns s v) (f.apply vs) m := by
  have hnil : T.Owns m.store .nil := owns_of_plain (by simp)
  unfold Native.apply
  split
  · have hr : (Run.readClock >>= fun x => pure (Value.number x) : Run Value) m =
        (.value (.number (m.clock m.ticks)), { m with ticks := m.ticks + 1 }) := rfl
    exact .of_eq hr ⟨h, rfl, .refl _ _⟩ (owns_of_plain (by simp))
  · refine .pure h ?_
    cases vs with
    | nil => exact hnil
    | cons v vs => exact hv v List.mem_cons_self
  · refine .pure h ?_
    cases hl : vs.getLast? with
    | none => exact hnil
    | some v => exact hv v (List.mem_of_getLast? hl)
  · exact .pure h (owns_of_plain (by simp))

/-! ## New frames -/

theorem At.opened (h : T.At m) : T.At (m.opened m.here) :=
  let ⟨hs, hf⟩ := T.add h.allowed h.here
  ⟨hs, hf⟩

theorem allows_boundIn {frame : FrameId} : ∀ (ps : List Token) (vs : List Value) {s : Store}, T.Allows s →
    T.Has s frame → (∀ v ∈ vs, T.Owns s v) → T.Allows (s.boundIn frame ps vs)
  | [], _, _, h, _, _ => h
  | _ :: _, [], _, h, _, _ => h
  | p :: ps, v :: vs, s, h, hf, hv => by
    have hl := Store.Later.define s frame p.lexeme v
    refine allows_boundIn ps vs (T.define _ h hf (hv v List.mem_cons_self)) (T.later hf hl) fun w hw => ?_
    exact (hv w (List.mem_cons_of_mem _ hw)).later hl

/-- The body of a function starts in the territory, wherever its call did. -/
theorem at_called (h : T.Allows m.store) (f : Function) {frame : FrameId} (hf : T.Has m.store frame) {vs : List Value}
    (hv : ∀ v ∈ vs, T.Owns m.store v) : T.At (m.called f frame vs) := by
  obtain ⟨hs, hn⟩ := T.add h hf
  rw [History.called_eq]
  exact ⟨allows_boundIn _ _ hs hn fun v hw => (hv v hw).later (.add _ _), T.later hn (Store.later_boundIn _ _ _ _)⟩

theorem later_called (m : Machine) (f : Function) (frame : FrameId) (vs : List Value) :
    m.store.Later none (m.called f frame vs).store := by
  rw [History.called_eq]
  exact (Store.Later.add _ _).of_new (Store.later_boundIn _ _ _ _) (Nat.le_refl _)

theorem here_called (m : Machine) (f : Function) (frame : FrameId) (vs : List Value) :
    (m.called f frame vs).here = m.store.frames.size := by
  rw [History.called_eq]

/-! ## Trees -/

/-- Calls of functions that close over frames of the territory stay in it. -/
def ConfinesCalls (T : Territory) (inv : Invoke) : Prop :=
  ∀ (f : Callable) (vs : List Value) (m : Machine), T.Allows m.store →
  T.Owns m.store (.callable f) → (∀ v ∈ vs, T.Owns m.store v) → T.Stays false (fun v s => T.Owns s v) (inv f vs) m

variable {inv : Invoke}

mutual
theorem ConfinesCalls.eval (hi : T.ConfinesCalls inv) : ∀ (e : Expr) {m : Machine}, T.At m →
    T.Stays false (fun v s => T.Owns s v) (e.eval inv) m
  | .literal v, m, h => .pure h.allowed (owns_of_plain (by cases v <;> simp [Value.ofLiteral]))
  | .variable id name, m, h => stays_lookUp h id name
  | .assign id name e, m, h => by
    refine (hi.eval e h).bind fun v m₁ _ hk hv => ?_
    refine (stays_assign (h.of_leaves hk) id name hv).bind fun _ m₂ _ hk' _ => ?_
    exact .pure hk'.allowed (hv.later hk'.later)
  | .group e, m, h => hi.eval e h
  | .unary t e, m, h => (hi.eval e h).bind fun v _ _ hk _ => stays_neutral (neutral_applyUnary t v) hk.allowed
  | .binary l t r, m, h => by
    refine (hi.eval l h).bind fun v m₁ _ hk _ => ?_
    exact (hi.eval r (h.of_leaves hk)).bind fun w m₂ _ hk' _ => stays_neutral (neutral_applyBinary t v w) hk'.allowed
  | .logical l t r, m, h => by
    refine (hi.eval l h).bind fun v m₁ _ hk hv => ?_
    cases hs : settles t v with
    | true => exact .pure hk.allowed hv
    | false => exact hi.eval r (h.of_leaves hk)
  | .call e t es, m, h => by
    refine (hi.eval e h).bind fun v m₁ he hk hv => ?_
    refine (hi.evalAll es (h.of_leaves hk)).bind fun vs m₂ hes hk' hvs => ?_
    unfold applyCall
    split
    · next f =>
      split
      · exact hi f vs m₂ hk'.allowed (hv.later hk'.later) hvs
      · exact .fail hk'.allowed
    · exact .fail hk'.allowed

theorem ConfinesCalls.evalAll (hi : T.ConfinesCalls inv) : ∀ (es : List Expr) {m : Machine}, T.At m →
    T.Stays false (fun vs s => ∀ v ∈ vs, T.Owns s v) (Expr.evalAll inv es) m
  | [], m, h => .pure h.allowed (by simp)
  | e :: es, m, h => by
    refine (hi.eval e h).bind fun v m₁ _ hk hv => ?_
    refine (hi.evalAll es (h.of_leaves hk)).bind fun vs m₂ _ hk' hvs => .pure hk'.allowed ?_
    exact List.forall_mem_cons.2 ⟨hv.later hk'.later, hvs⟩
end

theorem ConfinesCalls.optionalEval (hi : T.ConfinesCalls inv) (h : T.At m) : ∀ o : Option Expr,
    T.Stays false (fun v s => T.Owns s v) (Scriptlet.optionalEval inv o) m
  | none => .pure h.allowed (owns_of_plain (by simp))
  | some e => hi.eval e h

/-- The statement stays in the territory, wherever in it it is run. -/
def ConfinesStmt (T : Territory) (inv : Invoke) (n : Nat) (s : Stmt) : Prop := ∀ m : Machine, T.At m →
  T.Stays s.declares (fun _ _ => True) (s.exec inv n) m

theorem ConfinesCalls.loop (hi : T.ConfinesCalls inv) (n : Nat) (e : Expr) {s : Stmt} (hs : T.ConfinesStmt inv n s) :
    ∀ (k : Nat) {m : Machine}, T.At m →
      T.Stays s.declares (fun _ _ => True) (Scriptlet.loop (e.eval inv) (s.exec inv n) k) m
  | 0, m, h => .of_eq rfl (.refl h.allowed) trivial
  | k + 1, m, h => by
    rw [loop_succ]
    refine ((hi.eval e h).mono (by simp) fun _ _ hv => hv).bind fun v m₁ _ hk _ => ?_
    split
    · refine (hs m₁ (h.of_leaves hk)).bind fun _ m₂ _ hk' _ => ?_
      exact ConfinesCalls.loop hi n e hs k ((h.of_leaves hk).of_leaves hk')
    · exact .pure hk.allowed trivial

mutual
theorem ConfinesCalls.exec (hi : T.ConfinesCalls inv) (n : Nat) : ∀ s : Stmt, T.ConfinesStmt inv n s
  | .block body, m, h => by
    have hb := ConfinesCalls.execAll hi n body h.opened
    have hk := hb.leaves.within (m := m) (.add m.store (some m.here)) (Nat.le_refl _)
    refine .of_eq (History.exec_block inv n body m) hk ?_
    have he := hb.yields
    generalize Stmt.execAll inv n body (m.opened m.here) = o at he ⊢
    exact he
  | .expression e, m, h => (hi.eval e h).bind fun _ _ _ hk _ => .pure hk.allowed trivial
  | .function name params body, m, h => by
    have hv : T.Owns m.store (.callable (.closure m.fresh ⟨name, params, body⟩ m.here)) := fun f hf => by
      cases hf
      exact h.here
    exact .of_eq (History.exec_function inv n name params body m)
      ⟨T.define _ h.allowed h.here hv, rfl, .define _ _ _ _⟩ trivial
  | .conditional e yes none, m, h => by
    refine ((hi.eval e h).mono (by simp) fun _ _ hv => hv).bind fun v m₁ _ hk _ => ?_
    split
    · exact (ConfinesCalls.exec hi n yes m₁ (h.of_leaves hk)).mono (by simp [Stmt.declares]) fun _ _ _ => trivial
    · exact .pure hk.allowed trivial
  | .conditional e yes (some no), m, h => by
    refine ((hi.eval e h).mono (by simp) fun _ _ hv => hv).bind fun v m₁ _ hk _ => ?_
    split
    · exact (ConfinesCalls.exec hi n yes m₁ (h.of_leaves hk)).mono (by simp [Stmt.declares]; tauto) fun _ _ _ => trivial
    · exact (ConfinesCalls.exec hi n no m₁ (h.of_leaves hk)).mono (by simp [Stmt.declares]; tauto) fun _ _ _ => trivial
  | .print e, m, h => (hi.eval e h).bind fun v _ _ hk _ => stays_print hk.allowed v.display
  | .return t o, m, h => (hi.optionalEval h o).bind fun v m₁ _ hk hv => by
    have hr : Run.leave v m₁ = ((.returned v : Signal Unit), m₁) := rfl
    exact .of_eq hr (.refl hk.allowed) hv
  | .var name o, m, h => by
    refine ((hi.optionalEval h o).mono (by simp) fun _ _ hv => hv).bind fun v m₁ _ hk hv => ?_
    exact stays_define (h.of_leaves hk) name.lexeme hv
  | .while e body, m, h => hi.loop n e (ConfinesCalls.exec hi n body) n h

theorem ConfinesCalls.execAll (hi : T.ConfinesCalls inv) (n : Nat) : ∀ (ss : List Stmt) {m : Machine}, T.At m →
    T.Stays (ss.any Stmt.declares) (fun _ _ => True) (Stmt.execAll inv n ss) m
  | [], m, h => .pure h.allowed trivial
  | s :: ss, m, h => by
    refine ((ConfinesCalls.exec hi n s m h).mono (by simp; tauto) fun _ _ h => h).bind fun _ m₁ _ hk _ => ?_
    exact (ConfinesCalls.execAll hi n ss (h.of_leaves hk)).mono (by simp; tauto) fun _ _ h => h
end

/-- **Calls stay in the territory**, by induction on the bound. -/
theorem confinesCalls (T : Territory) : ∀ n, T.ConfinesCalls (invoke n)
  | 0, .native _ f, vs, m, h, _, hv => stays_native h f hv
  | n + 1, .native _ f, vs, m, h, _, hv => stays_native h f hv
  | 0, .closure id f frame, vs, m, h, _, _ => .of_eq rfl (.refl h) trivial
  | n + 1, .closure id f frame, vs, m, h, hf, hv => by
    have hb := (confinesCalls T n).execAll n f.body (at_called h f (hf frame rfl) hv)
    rcases hr : Stmt.execAll (invoke n) n f.body (m.called f frame vs) with ⟨signal, m'⟩
    obtain ⟨hk, he⟩ := hb.of_run hr
    have hk := hk.within (later_called m f frame vs) (Nat.le_of_eq (here_called m f frame vs).symm)
    have hi := History.invoke_closure n id f frame vs m
    rw [hr] at hi
    cases signal with
    | value u => exact .of_eq hi hk (owns_of_plain (by simp))
    | returned v => exact .of_eq hi hk he
    | failed f => exact .of_eq hi hk trivial
    | spent => exact .of_eq hi hk trivial

end Territory

/-! ## Moments -/

/-- The functions and arguments that a task brings with it. -/
def Task.values : Task → List Value
  | .call f arguments => .callable f :: arguments
  | _ => []

/-- The task may declare names in the current frame. -/
def Task.declares : Task → Bool
  | .exec s => s.declares
  | .execAll ss => ss.any Stmt.declares
  | .loop _ body _ => body.declares
  | _ => false

/-- The machine that the run leaves, however it ends. -/
def Moment.left : Moment → Machine
  | ⟨n, .eval e, m⟩ => (e.eval (invoke n) m).2
  | ⟨n, .evalAll es, m⟩ => (Expr.evalAll (invoke n) es m).2
  | ⟨n, .exec s, m⟩ => (s.exec (invoke n) n m).2
  | ⟨n, .execAll ss, m⟩ => (Stmt.execAll (invoke n) n ss m).2
  | ⟨n, .loop e s k, m⟩ => (loop (e.eval (invoke n)) (s.exec (invoke n) n) k m).2
  | ⟨n, .call f vs, m⟩ => (invoke n f vs m).2

namespace Territory

/-- The run starts in the territory, with values of it. -/
structure Starts (T : Territory) (c : Moment) : Prop where
  machine : T.At c.machine
  values : ∀ v ∈ c.task.values, T.Owns c.machine.store v

variable {T : Territory} {c c' : Moment}

/-- **Runs stay in the territory.** -/
theorem left (h : T.Starts c) : T.Leaves c.task.declares c.machine c.left := by
  obtain ⟨n, task, m⟩ := c
  have hm : T.At m := h.machine
  cases task with
  | eval e => exact ((T.confinesCalls n).eval e hm).leaves
  | evalAll es => exact ((T.confinesCalls n).evalAll es hm).leaves
  | exec s => exact ((T.confinesCalls n).exec n s m hm).leaves
  | execAll ss => exact ((T.confinesCalls n).execAll n ss hm).leaves
  | loop e s k => exact ((T.confinesCalls n).loop n e ((T.confinesCalls n).exec n s) k hm).leaves
  | call f vs =>
    obtain ⟨hf, hv⟩ := List.forall_mem_cons.1 h.values
    exact (T.confinesCalls n f vs m hm.allowed hf hv).leaves

theorem At.starts {n : Nat} {task : Task} {m : Machine} (h : T.At m) (ht : task.values = []) : T.Starts ⟨n, task, m⟩ :=
  ⟨h, by rw [ht]; simp⟩

/-- **The runs that a run starts are in the territory, too.** -/
theorem enters (h : T.Starts c) (he : Enters c c') : T.Starts c' := by
  have hm := h.machine
  -- what an expression or a statement has left is in the territory
  have after : ∀ {n : Nat} {e : Expr} {m m' : Machine} {v : Value}, T.At m →
      e.eval (invoke n) m = (.value v, m') → T.At m' :=
    fun {n e _ _ _} hm hr => hm.of_leaves (((T.confinesCalls n).eval e hm).of_run hr).1
  have done : ∀ {n : Nat} {s : Stmt} {m m' : Machine}, T.At m → s.exec (invoke n) n m = (.value (), m') → T.At m' :=
    fun {n s _ _} hm hr => hm.of_leaves (((T.confinesCalls n).exec n s _ hm).of_run hr).1
  cases he with
  | assign | group | unary | left | logicalLeft | callee | first | expression | test | print | «return» | initializer
  | «while» | loopTest | head => exact hm.starts rfl
  | right hr => exact (after hm hr).starts rfl
  | logicalRight hr _ => exact (after hm hr).starts rfl
  | arguments hr => exact (after hm hr).starts rfl
  | others hr => exact (after hm hr).starts rfl
  | yes hr _ => exact (after hm hr).starts rfl
  | no hr _ => exact (after hm hr).starts rfl
  | loopBody hr _ => exact (after hm hr).starts rfl
  | loopAgain hr _ hb => exact (done (after hm hr) hb).starts rfl
  | tail hr => exact (done hm hr).starts rfl
  | @apply n m e t es f vs m₁ m₂ hr hrs ha =>
    obtain ⟨hk, hf⟩ := ((T.confinesCalls n).eval e hm).of_run hr
    obtain ⟨hk', hvs⟩ := ((T.confinesCalls n).evalAll es (hm.of_leaves hk)).of_run hrs
    have hf : T.Owns m₁.store (.callable f) := hf
    exact ⟨(hm.of_leaves hk).of_leaves hk', List.forall_mem_cons.2 ⟨hf.later hk'.later, hvs⟩⟩
  | block => exact hm.opened.starts rfl
  | @body n m id f frame vs =>
    obtain ⟨hf, hv⟩ := List.forall_mem_cons.1 h.values
    exact (at_called hm.allowed f (hf frame rfl) hv).starts rfl

theorem reaches (h : T.Starts c) (hr : Reaches c c') : T.Starts c' := by
  induction hr with
  | refl => exact h
  | tail _ he ih => exact enters ih he

end Territory
end Scriptlet
