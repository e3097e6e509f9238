import Mathlib
import Scriptlet.Proofs.Coupling
import Scriptlet.Proofs.Likeness

/-!
# Runs of trees that are alike

Two machines are twins when they agree on everything but the functions in their frames, which are alike in one of
several ways, and on their binding tables, which give numbers that stand for each other one distance.  Trees that are
alike in one of the ways keep twins twins and end alike (`alike_execAll`): the same values, and faults of the same
cause.
-/
namespace Scriptlet

structure Function.Alike (L : Likeness) (f f' : Function) : Prop where
  name : L.token f.name f'.name
  params : List.Forall₂ L.token f.params f'.params
  body : Stmt.AllAlike L f.body f'.body

section

variable (W : List Likeness)

/-- Functions in one frame, alike in one of the ways. -/
def Closures.alike : Closures where
  Rel f frame f' frame' := frame = frame' ∧ ∃ L ∈ W, f.Alike L f'
  name := by
    rintro f frame f' frame' ⟨-, L, -, h⟩
    exact (L.lexeme h.name).symm
  arity := by
    rintro f frame f' frame' ⟨-, L, -, h⟩
    exact h.params.length_eq

abbrev Value.Alike : Value → Value → Prop := Value.Paired (.alike W)

abbrev Cells.Alike : Cells → Cells → Prop := Cells.Paired Eq (Value.Alike W)

/-- The same frames around each other, with the same names in them. -/
structure Store.Alike (s s' : Store) : Prop where
  size : s.frames.size = s'.frames.size
  chain : ∀ f, s.chain f = s'.chain f
  cells : ∀ f, Cells.Alike W (s.cells f) (s'.cells f)

/-- Two binding tables that give numbers that stand for each other one distance. -/
structure Tables where
  left : Bindings
  right : Bindings
  agree : ∀ {L}, L ∈ W → ∀ {i i'}, L.number i i' → left[i]? = right[i']?

/-- Faults that are alike in one of the ways. -/
def Fault.AlikeIn (f f' : Fault) : Prop := ∃ L ∈ W, f.Alike L f'

abbrev Signal.Alike {α α' : Type} (R : α → α' → Prop) : Signal α → Signal α' → Prop :=
  Signal.Paired (Value.Alike W) (Fault.AlikeIn W) R

end

/-- Machines that agree on everything but trees and tables. -/
structure Machine.Twins {W : List Likeness} (T : Tables W) (m m' : Machine) : Prop extends
    Machine.Paired (Store.Alike W) T.left T.right m m' where
  here : m.here = m'.here

variable {W : List Likeness} {L : Likeness}

/-! ## Other ways -/

section

variable {W' : List Likeness} {L' : Likeness}

theorem Function.Alike.le {f f' : Function} (h : f.Alike L f') (hle : L.Le L') : f.Alike L' f' :=
  ⟨hle.token h.name, h.params.imp fun _ _ => hle.token, h.body.imp hle.token fun _ _ _ => hle.number⟩

/-- Whatever is alike in one of the ways is in one of the others. -/
def Covered (W W' : List Likeness) : Prop := ∀ L ∈ W, ∃ L' ∈ W', L.Le L'

theorem Value.Alike.covered {v v' : Value} (h : v.Alike W v') (hc : Covered W W') : v.Alike W' v' := by
  refine Value.Paired.imp h fun hf => ?_
  obtain ⟨hframe, L, hL, hf⟩ := hf
  obtain ⟨L', hL', hle⟩ := hc L hL
  exact ⟨hframe, L', hL', hf.le hle⟩

theorem Store.Alike.covered {s s' : Store} (h : s.Alike W s') (hc : Covered W W') : s.Alike W' s' :=
  ⟨h.size, h.chain, fun f => (h.cells f).imp fun _ _ hv => ⟨hv.1, Value.Alike.covered hv.2 hc⟩⟩

end

/-! ## Equal machines -/

theorem Function.Alike.eq (hL : L.Exact) {f f' : Function} (h : f.Alike L f') : f = f' := by
  cases f
  cases f'
  exact (Function.mk.injEq ..).mpr ⟨hL.token h.name, hL.tokens_eq h.params, h.body.eq hL⟩

section

variable (hW : ∀ L ∈ W, L.Exact)
include hW

theorem Value.Alike.eq {v v' : Value} (h : v.Alike W v') : v = v' := by
  cases h with
  | same _ => rfl
  | closure id hf =>
    obtain ⟨rfl, L, hL, hf⟩ := hf
    rw [hf.eq (hW L hL)]

theorem Store.Alike.eq {s s' : Store} (h : s.Alike W s') : s = s' := by
  obtain ⟨frames⟩ := s
  obtain ⟨frames'⟩ := s'
  refine congrArg Store.mk (Array.ext h.size fun f hf hf' => ?_)
  have hchain := h.chain f
  have hcells : List.Forall₂ Eq _ _ := (h.cells f).imp fun c c' hc => Prod.ext hc.1 (Value.Alike.eq hW hc.2)
  rw [List.forall₂_eq_eq_eq] at hcells
  simp only [Store.chain, Store.cells, Array.getElem?_eq_getElem hf, Array.getElem?_eq_getElem hf', Option.map_some,
    Option.getD_some, List.cons.injEq, true_and] at hchain hcells
  generalize frames[f] = frame, frames'[f] = frame' at hchain hcells ⊢
  cases frame
  cases frame'
  exact (Frame.mk.injEq ..).mpr ⟨hcells, hchain⟩

theorem Signal.Alike.eq {signal signal' : Signal Unit} (h : signal.Alike W (fun _ _ => True) signal') :
    signal = signal' := by
  cases h with
  | value _ => rfl
  | returned h => rw [Value.Alike.eq hW h]
  | failed h =>
    obtain ⟨L, hL, h⟩ := h
    rw [h.eq (hW L hL).token]
  | spent => rfl

/-- **Twins whose trees are the same** differ in their tables only. -/
theorem Machine.Twins.eq {T : Tables W} {m m' : Machine} (h : m.Twins T m') : m' = { m with bindings := T.right } := by
  obtain ⟨store, here, bindings, sink, clock, ticks, fresh⟩ := m
  obtain ⟨store', here', bindings', sink', clock', ticks', fresh'⟩ := m'
  obtain ⟨⟨hs, -, rfl, rfl, rfl, rfl, rfl⟩, rfl⟩ := h
  rw [show store = store' from hs.eq hW]

end

/-! ## Stores -/

namespace Store.Alike

variable {s s' : Store}

theorem holds (h : s.Alike W s') (x : String) (f : FrameId) : s.holds x f = s'.holds x f :=
  Cells.Paired.holds (h.cells f) biUnique_eq rfl

theorem add (h : s.Alike W s') (outer : FrameId) : (s.add (some outer)).2.Alike W (s'.add (some outer)).2 where
  size := by rw [Store.size_add, Store.size_add, h.size]
  chain f := by rw [Store.chain_add_eq, Store.chain_add_eq, h.size, h.chain, h.chain]
  cells f := by
    rw [Store.cells_add, Store.cells_add]
    exact h.cells f

theorem define (h : s.Alike W s') (f : FrameId) (x : String) {v v' : Value} (hv : v.Alike W v') :
    (s.define f x v).Alike W (s'.define f x v') := by
  refine ⟨by simp [h.size], fun g => by simp [h.chain], fun g => ?_⟩
  by_cases hf : f < s.frames.size
  · rw [Store.cells_define s f x v g hf, Store.cells_define s' f x v' g (h.size ▸ hf)]
    split
    · exact Cells.Paired.put (h.cells f) biUnique_eq rfl hv
    · exact h.cells g
  · rw [Store.define, Store.define, Array.getElem?_eq_none (Nat.le_of_not_lt hf),
      Array.getElem?_eq_none (h.size ▸ Nat.le_of_not_lt hf)]
    exact h.cells g

end Store.Alike

/-! ## The coupling -/

/-- Trees that are alike in one of the ways, all through. -/
def Pairing.alike (W : List Likeness) : Pairing where
  Place := { L // L ∈ W }
  token p := p.1.token
  occurrence p o o' := p.1.number o.id o'.id ∧ p.1.token o.name o'.name
  declared p t t' q := p.1.token t t' ∧ q = p
  function p f f' q := f.Alike p.1 f' ∧ q = p
  block p _ _ q := q = p
  next p q := q = p
  kind := fun {p} _ _ ht => (p.1.kind ht).symm
  lexeme := fun {p} _ _ ht => (p.1.lexeme ht).symm

section

variable (p : (Pairing.alike W).Place)

mutual
theorem Expr.Alike.paired : ∀ {e e' : Expr}, e.Alike p.1 e' → e.Paired (.alike W) p e'
  | _, _, .literal l => .literal l
  | _, _, .variable hi ht => .variable ⟨hi, ht⟩
  | _, _, .assign hi ht he => .assign ⟨hi, ht⟩ (Expr.Alike.paired he)
  | _, _, .group he => .group (Expr.Alike.paired he)
  | _, _, .unary ht he => .unary ht (Expr.Alike.paired he)
  | _, _, .binary hl ht hr => .binary (Expr.Alike.paired hl) ht (Expr.Alike.paired hr)
  | _, _, .logical hl ht hr => .logical (Expr.Alike.paired hl) ht (Expr.Alike.paired hr)
  | _, _, .call he ht hes => .call (Expr.Alike.paired he) ht (Expr.AllAlike.paired hes)

theorem Expr.AllAlike.paired : ∀ {es es' : List Expr}, Expr.AllAlike p.1 es es' → Expr.AllPaired (.alike W) p es es'
  | _, _, .nil => .nil
  | _, _, .cons he hes => .cons (Expr.Alike.paired he) (Expr.AllAlike.paired hes)
end

theorem OptionalAlike.paired {o o' : Option Expr} (h : OptionalAlike p.1 o o') :
    Option.Rel (Expr.Paired (.alike W) p) o o' := by
  cases h with
  | none => exact .none
  | some he => exact .some (he.paired p)

mutual
theorem Stmt.Alike.paired : ∀ {s s' : Stmt}, s.Alike p.1 s' → s.Paired (.alike W) p s' p
  | _, _, .block hs => .block rfl (Stmt.AllAlike.paired hs)
  | _, _, .expression he => .expression (he.paired p)
  | _, _, .function ht hp hs => .function ⟨⟨ht, hp, hs⟩, rfl⟩
  | _, _, .conditional he hs => .conditional (he.paired p) (Stmt.Alike.paired hs)
  | _, _, .alternative he hs hr => .alternative (he.paired p) (Stmt.Alike.paired hs) (Stmt.Alike.paired hr)
  | _, _, .print he => .print (he.paired p)
  | _, _, .return _ ho => .return (OptionalAlike.paired p ho)
  | _, _, .var ht ho => .var ⟨ht, rfl⟩ (OptionalAlike.paired p ho)
  | _, _, .while he hs => .while (he.paired p) (Stmt.Alike.paired hs)

theorem Stmt.AllAlike.paired : ∀ {ss ss' : List Stmt}, Stmt.AllAlike p.1 ss ss' → Stmt.AllPaired (.alike W) p ss ss' p
  | _, _, .nil => .nil
  | _, _, .cons hs hss => .cons (Stmt.Alike.paired hs) rfl (Stmt.AllAlike.paired hss)
end

end

namespace Tables

variable (T : Tables W)

/-- Twins, with one current frame. -/
def coupling : Coupling (.alike W) where
  World := Unit
  stores _ := Store.Alike W
  closures _ := .alike W
  stands _ _ f f' := f = f'
  later _ _ _ := True
  apart _ _ := True
  fault := Fault.AlikeIn W
  left := T.left
  right := T.right

variable {T} {m m' : Machine}

/-- Numbers that stand for each other find one frame. -/
theorem holder? (h : Machine.Paired (Store.Alike W) T.left T.right m m') (hh : m.here = m'.here) (hL : L ∈ W)
    {i i' : Nat} (hi : L.number i i') (x : String) : m.holder? i x = m'.holder? i' x := by
  have hx : m.store.holds x = m'.store.holds x := funext (h.store.holds x)
  unfold Machine.holder? Store.holderAt? Store.nearest? Store.ancestor?
  rw [h.left, h.right, T.agree hL hi, hh, h.store.chain, h.store.chain, hx]

theorem undefined_alike {t t' : Token} (ht : L.token t t') : (Store.undefined t).Alike L (Store.undefined t') := by
  unfold Store.undefined
  rw [L.lexeme ht]
  exact .run ht _

/-- Occurrences that stand for each other lead to one frame. -/
theorem holder_rel {p : (Pairing.alike W).Place} {o o' : Occurrence} (ho : (Pairing.alike W).occurrence p o o')
    (hm : Machine.Paired (Store.Alike W) T.left T.right m m') (hh : m.here = m'.here) :
    Option.Rel Eq (m.holder? o.id o.name.lexeme) (m'.holder? o'.id o'.name.lexeme) := by
  rw [← holder? hm hh p.2 ho.1, p.1.lexeme ho.2]
  cases m.holder? o.id o.name.lexeme with
  | none => exact .none
  | some f => exact .some rfl

/-- **What the steps keep**: the same frames are made and found, and values that are alike are put there. -/
theorem lawful : T.coupling.Lawful Access.distance.manner where
  later_refl _ _ := trivial
  later_trans _ _ := trivial
  later_of_apart _ := trivial
  stands_of_apart _ h := h
  closures_of_later _ _ _ _ _ h := h
  fault_at := fun {p _ _} ht cause => ⟨p.1, p.2, .run ht cause⟩
  fault_output p cause := ⟨p.1, p.2, .output cause⟩
  lookUp := by
    intro p o o' W m m' ho hm hh
    refine lookUp_paired (holder_rel ho hm hh) ⟨p.1, p.2, undefined_alike ho.2⟩ ?_
    rintro f _ rfl
    exact Cells.Paired.lookup (hm.store.cells f) biUnique_eq (p.1.lexeme ho.2).symm
  assign := by
    intro p o o' _ m m' v v' ho hm hh hv
    have hd : ∀ {f f'}, f = f' →
        (m.store.define f o.name.lexeme v).Alike W (m'.store.define f' o'.name.lexeme v') := by
      rintro f _ rfl
      rw [p.1.lexeme ho.2]
      exact hm.store.define f _ hv
    obtain ⟨signal, signal', s, s', hr⟩ := assign_paired (V := Value.Alike W) (F := Fault.AlikeIn W)
      (holder_rel ho hm hh) ⟨p.1, p.2, undefined_alike ho.2⟩ hm.store hd
    exact ⟨(), signal, signal', s, s', trivial, hr⟩
  declare := by
    rintro p q t t' _ s s' f _ v v' ⟨ht, -⟩ hs rfl hv
    refine ⟨(), trivial, ?_, rfl⟩
    rw [p.1.lexeme ht]
    exact hs.define f _ hv
  function := by
    rintro p q g g' _ s s' f _ ⟨hg, -⟩ hs rfl id
    refine ⟨(), trivial, ?_, rfl⟩
    rw [p.1.lexeme hg.name]
    exact hs.define f _ (.closure id ⟨rfl, p.1, p.2, hg⟩)
  next := by
    intro q p _ s s' f f' _ hs hf
    exact ⟨(), trivial, hs, hf⟩
  framed := by
    rintro p p₀ ss ss' _ s s' f _ - - hs rfl
    exact ⟨(), hs.add f, hs.size, fun _ _ => trivial⟩
  bare _ hM := by cases hM
  call := by
    rintro g f g' _ _ s s' vs vs' ⟨rfl, L, hL, hg⟩ hs hvs -
    refine ⟨⟨L, hL⟩, ⟨L, hL⟩, hg.body.paired ⟨L, hL⟩, (), ?_, hs.size, fun _ _ => trivial⟩
    have hd : ∀ {s₁ s₁' : Store} {t t' : Token} {v v' : Value}, s₁.Alike W s₁' → L.token t t' → v.Alike W v' →
        (s₁.define s.frames.size t.lexeme v).Alike W (s₁'.define s'.frames.size t'.lexeme v') := by
      intro s₁ s₁' t t' v v' hs₁ ht hv
      rw [L.lexeme ht, hs.size]
      exact hs₁.define _ _ hv
    exact Store.boundIn_rel hd hg.params hvs (hs.add f)

end Tables

/-- **Statements that are alike in one of the ways keep twins twins and end alike.** -/
theorem alike_execAll {T : Tables W} (hL : L ∈ W) (n : Nat) {ss ss' : List Stmt} (h : Stmt.AllAlike L ss ss')
    {m m' : Machine} (hm : m.Twins T m') :
    (Stmt.execAll (invoke n) n ss m).1.Alike W (fun _ _ => True) (Stmt.execAll (invoke n) n ss' m').1 ∧
      (Stmt.execAll (invoke n) n ss m).2.Twins T (Stmt.execAll (invoke n) n ss' m').2 := by
  have hrun := T.lawful.run_distance (W := ()) (h.paired ⟨L, hL⟩) n
  obtain ⟨_, -, he⟩ := hrun ⟨hm.toPaired, hm.here⟩
  exact ⟨he.signal.imp fun _ => trivial, he.machines, by rw [he.here, he.here', hm.here]⟩

end Scriptlet
