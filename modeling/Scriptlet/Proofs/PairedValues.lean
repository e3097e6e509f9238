import Mathlib
import Scriptlet.Proofs.Steps
import Scriptlet.Tree.Occurrence

/-!
# Values, cells and machines side by side

Two machines that are followed side by side may differ in the functions in their frames, in the names there and in
their tables.  What stands for what is left open here: functions with the frames that they close over (`Closures`),
names, and stores.  Whatever it is, values that stand for each other show alike and give one result (`OneResult`), and
an occurrence that leads to the same cell on both machines reads and writes values that stand for each other.
-/
namespace Scriptlet

/-! ## Values -/

/-- Which functions stand for each other, each with the frame that it closes over.  They show alike and take as many
arguments. -/
structure Closures where
  Rel : Function → FrameId → Function → FrameId → Prop
  name : ∀ {f frame f' frame'}, Rel f frame f' frame' → f.name.lexeme = f'.name.lexeme
  arity : ∀ {f frame f' frame'}, Rel f frame f' frame' → f.params.length = f'.params.length

/-- One value, or functions with one identity that stand for each other. -/
inductive Value.Paired (C : Closures) : Value → Value → Prop
  | same {v : Value} (h : v.frame? = none) : Paired C v v
  | closure (id : Nat) {f f' : Function} {frame frame' : FrameId} (h : C.Rel f frame f' frame') :
      Paired C (.callable (.closure id f frame)) (.callable (.closure id f' frame'))

/-- Two runs that have one value, which is no function, or fail at their tokens for one cause. -/
inductive OneResult (t t' : Token) : Run Value → Run Value → Prop
  | value {v : Value} (h : v.frame? = none) : OneResult t t' (pure v) (pure v)
  | fault (cause : Cause) : OneResult t t' (.failAt t cause) (.failAt t' cause)

theorem applyUnary_callable (t : Token) (f : Callable) : applyUnary t (.callable f) =
    if t.kind = .bang then pure (.bool false) else .failAt t .operandNotNumber := by
  unfold applyUnary
  split
  · next hk => rw [if_pos hk]; rfl
  · next hf => cases hf
  · next hk _ => rw [if_neg hk]

theorem oneResult_applyArithmetic {t t' : Token} (hk : t.kind = t'.kind) (hl : t.lexeme = t'.lexeme) (x y : Number) :
    OneResult t t' (applyArithmetic t x y) (applyArithmetic t' x y) := by
  unfold applyArithmetic
  rw [hk, hl]
  split
  iterate 7 exact .value rfl
  exact .fault _

theorem settles_congr {t t' : Token} (hk : t.kind = t'.kind) {v v' : Value} (hv : v.truthy = v'.truthy) :
    settles t v = settles t' v' := by
  rw [settles, settles, hk, hv]

namespace Value.Paired

variable {C C' : Closures} {v v' w w' : Value} {t t' : Token}

theorem imp (h : v.Paired C v') (hC : ∀ {f frame f' frame'}, C.Rel f frame f' frame' → C'.Rel f frame f' frame') :
    v.Paired C' v' := by
  cases h with
  | same h => exact .same h
  | closure id h => exact .closure id (hC h)

theorem truthy (h : v.Paired C v') : v.truthy = v'.truthy := by cases h <;> rfl

theorem display (h : v.Paired C v') : v.display = v'.display := by
  cases h with
  | same _ => rfl
  | closure id h => simp [Value.display, Callable.display, C.name h]

theorem equals (h : v.Paired C v') (h' : w.Paired C w') : v.equals w = v'.equals w' := by
  cases h with
  | same _ =>
    cases h' with
    | same _ => rfl
    | closure id _ => cases v <;> rfl
  | closure id _ =>
    cases h' with
    | same _ => cases w <;> rfl
    | closure id _ => rfl

theorem ofLiteral (l : Literal) : (Value.ofLiteral l).Paired C (Value.ofLiteral l) := .same (by cases l <;> rfl)

theorem head {vs vs' : List Value} (h : List.Forall₂ (Value.Paired C) vs vs') :
    (vs.head?.getD .nil).Paired C (vs'.head?.getD .nil) := by
  cases h with
  | nil => exact .same rfl
  | cons hv _ => exact hv

theorem applyUnary (h : v.Paired C v') (hk : t.kind = t'.kind) :
    OneResult t t' (Scriptlet.applyUnary t v) (Scriptlet.applyUnary t' v') := by
  cases h with
  | same _ =>
    unfold Scriptlet.applyUnary
    rw [hk]
    split
    · exact .value rfl
    · exact .value rfl
    · exact .fault _
  | closure id _ =>
    rw [applyUnary_callable, applyUnary_callable, hk]
    split
    · exact .value rfl
    · exact .fault _

theorem applyBinary (h : v.Paired C v') (h' : w.Paired C w') (hk : t.kind = t'.kind) (hl : t.lexeme = t'.lexeme) :
    OneResult t t' (Scriptlet.applyBinary t v w) (Scriptlet.applyBinary t' v' w') := by
  unfold Scriptlet.applyBinary
  rw [hk, h.equals h']
  split
  · exact .value rfl
  · exact .value rfl
  · cases h with
    | same _ =>
      cases h' with
      | same _ =>
        split
        · exact .value rfl
        · exact .value rfl
        · exact .fault _
      | closure id _ => cases v <;> exact .fault _
    | closure id _ => cases h' <;> exact .fault _
  · cases h with
    | same _ =>
      cases h' with
      | same _ =>
        split
        · exact oneResult_applyArithmetic hk hl _ _
        · exact .fault _
      | closure id _ => cases v <;> exact .fault _
    | closure id _ => cases h' <;> exact .fault _

end Value.Paired

/-! ## Cells -/

/-- Cells in one order, with names and values that stand for each other. -/
abbrev Cells.Paired (K : String → String → Prop) (V : Value → Value → Prop) : Cells → Cells → Prop :=
  List.Forall₂ fun c c' => K c.1 c'.1 ∧ V c.2 c'.2

theorem biUnique_eq : Relator.BiUnique (Eq : String → String → Prop) :=
  ⟨fun _ _ _ h h' => h.trans h'.symm, fun _ _ _ h h' => h.symm.trans h'⟩

namespace Cells.Paired

variable {K : String → String → Prop} {V : Value → Value → Prop} {cells cells' : Cells} {x x' : String}

theorem lookup (h : Cells.Paired K V cells cells') (hK : Relator.BiUnique K) (hx : K x x') :
    Option.Rel V (cells.lookup x) (cells'.lookup x') := by
  induction h with
  | nil => exact .none
  | @cons c c' cells cells' hc _ ih =>
    obtain ⟨y, v⟩ := c
    obtain ⟨y', v'⟩ := c'
    obtain ⟨hy, hv⟩ := hc
    have hxy : x = y ↔ x' = y' := Relator.rel_eq hK hx hy
    rw [Cells.lookup_cons_if, Cells.lookup_cons_if]
    by_cases he : x = y
    · rw [if_pos he, if_pos (hxy.1 he)]
      exact .some hv
    · rw [if_neg he, if_neg fun he' => he (hxy.2 he')]
      exact ih

theorem holds (h : Cells.Paired K V cells cells') (hK : Relator.BiUnique K) (hx : K x x') :
    cells.holds x = cells'.holds x' := Cells.holds_eq_of_rel (lookup h hK hx)

theorem put (h : Cells.Paired K V cells cells') (hK : Relator.BiUnique K) (hx : K x x') {v v' : Value} (hv : V v v') :
    Cells.Paired K V (cells.put x v) (cells'.put x' v') := by
  induction h with
  | nil => exact .cons ⟨hx, hv⟩ .nil
  | @cons c c' cells cells' hc hcs ih =>
    obtain ⟨y, w⟩ := c
    obtain ⟨y', w'⟩ := c'
    obtain ⟨hy, hw⟩ := hc
    have hyx : y = x ↔ y' = x' := Relator.rel_eq hK hy hx
    rw [Cells.put, Cells.put]
    by_cases he : y = x
    · rw [if_pos he, if_pos (hyx.1 he)]
      exact .cons ⟨hy, hv⟩ hcs
    · rw [if_neg he, if_neg fun he' => he (hyx.2 he')]
      exact .cons ⟨hy, hw⟩ ih

end Cells.Paired

/-! ## Machines -/

/-- How two runs end alike. -/
inductive Signal.Paired (V : Value → Value → Prop) (F : Fault → Fault → Prop) {α α' : Type} (R : α → α' → Prop) :
    Signal α → Signal α' → Prop
  | value {a a'} (h : R a a') : Paired V F R (.value a) (.value a')
  | returned {v v'} (h : V v v') : Paired V F R (.returned v) (.returned v')
  | failed {f f'} (h : F f f') : Paired V F R (.failed f) (.failed f')
  | spent : Paired V F R .spent .spent

theorem Signal.Paired.imp {V : Value → Value → Prop} {F : Fault → Fault → Prop} {α α' : Type} {R R' : α → α' → Prop}
    {signal : Signal α} {signal' : Signal α'} (h : signal.Paired V F R signal') (hR : ∀ {a a'}, R a a' → R' a a') :
    signal.Paired V F R' signal' := by
  cases h with
  | value h => exact .value (hR h)
  | returned h => exact .returned h
  | failed h => exact .failed h
  | spent => exact .spent

/-- Machines that agree but for the store, the table and the current frame. -/
structure Machine.Paired (S : Store → Store → Prop) (left right : Bindings) (m m' : Machine) : Prop where
  store : S m.store m'.store
  left : m.bindings = left
  right : m'.bindings = right
  sink : m.sink = m'.sink
  clock : m.clock = m'.clock
  ticks : m.ticks = m'.ticks
  fresh : m.fresh = m'.fresh

section

variable {V : Value → Value → Prop} {F : Fault → Fault → Prop} {S S' : Store → Store → Prop} {m m' : Machine}

/-- Other stores and other current frames. -/
theorem Machine.Paired.moved {left right : Bindings} (h : m.Paired S left right m') {s s' : Store} (hs : S' s s')
    (f f' : FrameId) :
    Machine.Paired S' left right { m with store := s, here := f } { m' with store := s', here := f' } :=
  ⟨hs, h.left, h.right, h.sink, h.clock, h.ticks, h.fresh⟩

variable {o o' : Occurrence} {H : FrameId → FrameId → Prop}
  (hh : Option.Rel H (m.holder? o.id o.name.lexeme) (m'.holder? o'.id o'.name.lexeme))
  (hu : F (Store.undefined o.name) (Store.undefined o'.name))

include hh hu

/-- Occurrences that lead to cells that stand for each other read alike, and leave the machines as they are. -/
theorem lookUp_paired (hv : ∀ {f f'}, H f f' →
      Option.Rel V ((m.store.cells f).lookup o.name.lexeme) ((m'.store.cells f').lookup o'.name.lexeme)) :
    ∃ signal signal', Run.lookUp o.id o.name m = (signal, m) ∧ Run.lookUp o'.id o'.name m' = (signal', m') ∧
      signal.Paired V F V signal' := by
  rcases lookUp_cases o.id o.name m with ⟨f, v, hf, hl, hr⟩ | ⟨hn, hr⟩ <;>
    rcases lookUp_cases o'.id o'.name m' with ⟨f', v', hf', hl', hr'⟩ | ⟨hn', hr'⟩ <;>
    refine ⟨_, _, hr, hr', ?_⟩
  · rw [hf, hf'] at hh
    cases hh with
    | some hH =>
      have hv := hv hH
      rw [hl, hl'] at hv
      cases hv with
      | some hv => exact .value hv
  · rw [hf, hn'] at hh
    cases hh
  · rw [hn, hf'] at hh
    cases hh
  · exact .failed hu

/-- They write alike, into stores that stand for each other. -/
theorem assign_paired {v v' : Value} (hs : S m.store m'.store) (hd : ∀ {f f'}, H f f' →
      S (m.store.define f o.name.lexeme v) (m'.store.define f' o'.name.lexeme v')) :
    ∃ signal signal' s s', Run.assign o.id o.name v m = (signal, { m with store := s }) ∧
      Run.assign o'.id o'.name v' m' = (signal', { m' with store := s' }) ∧ S s s' ∧
      signal.Paired V F (fun _ _ => True) signal' := by
  rcases assign_cases o.id o.name v m with ⟨f, hf, hr⟩ | ⟨hn, hr⟩ <;>
    rcases assign_cases o'.id o'.name v' m' with ⟨f', hf', hr'⟩ | ⟨hn', hr'⟩
  · rw [hf, hf'] at hh
    cases hh with
    | some hH => exact ⟨_, _, _, _, hr, hr', hd hH, .value trivial⟩
  · rw [hf, hn'] at hh
    cases hh
  · rw [hn, hf'] at hh
    cases hh
  · exact ⟨_, _, m.store, m'.store, hr, hr', hs, .failed hu⟩

end

end Scriptlet
