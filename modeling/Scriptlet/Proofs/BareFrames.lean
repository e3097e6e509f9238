import Mathlib
import Scriptlet.Proofs.BareBlocks
import Scriptlet.Proofs.SelfPairing

/-!
# Machines with and without the frames of bare blocks

Two machines that run one program, the second without the frames of the bare blocks.  Each frame of the first has a
shade: the frame of the second that stands for it, and which of the frames around it have one of their own there
(`Shades.Mirror`).

An occurrence leads to a scope that declares, which has a frame on both machines.  So it finds the same cell on both,
each by its own distance (`Machine.Shaded.holder?`).
-/
namespace Scriptlet

/-- Blocks that declare nothing, the places of the programs that are run, and the tables for them: the one counts
scopes, and the other the frames that are left. -/
structure Baring where
  bare : List Stmt → Bool
  undeclaring : Undeclaring bare
  Known : ScopedOccurrence → Prop
  scopes : Bindings
  frames : Bindings
  tables : ∀ p, Known p → scopes[p.2.id]? = p.1.distance? p.2.name.lexeme ∧
    frames[p.2.id]? = (p.1.framed bare).distance? p.2.name.lexeme

/-- The frame that stands for a frame, and for this one and those around it, innermost first, whether they have one of
their own. -/
structure Shade where
  frame : FrameId
  pattern : List Bool

/-- The shade of every frame that has been made. -/
abbrev Shades := FrameId → Option Shade

namespace Shades

/-- Frames that have been made keep their shades. -/
def Le (W W' : Shades) : Prop := ∀ f k, W f = some k → W' f = some k

/-- The frame of a frame that has one of its own. -/
def own? (W : Shades) (f : FrameId) : Option FrameId :=
  (W f).bind fun k => if k.pattern.head? = some true then some k.frame else none

/-- The shades are right: what is around the frame that stands for another are the frames of the frames around that
one. -/
structure Mirror (W : Shades) (s s' : Store) : Prop where
  globals : W Machine.globals = some ⟨Machine.globals, [true]⟩
  top : s.chain Machine.globals = [Machine.globals]
  bounded : ∀ f k, W f = some k → f < s.frames.size ∧ k.frame < s'.frames.size
  around : ∀ f, ∀ g ∈ s.chain f, g < s.frames.size
  pattern : ∀ f k, W f = some k → (s.chain f).map (fun g => (W.own? g).isSome) = k.pattern
  chain : ∀ f k, W f = some k → s'.chain k.frame = (s.chain f).filterMap W.own?
  apart : ∀ f f' g, W.own? f = some g → W.own? f' = some g → f = f'

end Shades

/-- Which of the scopes around a place have frames, down to the global one, which has. -/
def Surroundings.pattern (bare : List Stmt → Bool) (around : Surroundings) : List Bool :=
  around.map (·.1.framed bare) ++ [true]

section

variable (B : Baring) (W : Shades)

/-- One function, with the frame that it closes over and the one that stands for this. -/
def Closures.shaded : Closures where
  Rel f frame f' frame' := f = f' ∧ ∃ around : Surroundings, W frame = some ⟨frame', around.pattern B.bare⟩ ∧
    Stmt.ProperAll f.body ∧ ∀ p ∈ Stmt.placesAll (some (.function f, around)) 0 f.body, B.Known p
  name := by
    rintro f frame _ frame' ⟨rfl, -⟩
    rfl
  arity := by
    rintro f frame _ frame' ⟨rfl, -⟩
    rfl

abbrev Value.Shaded : Value → Value → Prop := Value.Paired (.shaded B W)

/-- The frames that have one of their own have the same cells. -/
structure Store.Shaded (s s' : Store) : Prop where
  mirror : W.Mirror s s'
  cells : ∀ f g, W.own? f = some g → Cells.Paired Eq (Value.Shaded B W) (s.cells f) (s'.cells g)

/-- Machines with the same cells, each with its table. -/
abbrev Machine.Shaded : Machine → Machine → Prop := Machine.Paired (Store.Shaded B W) B.scopes B.frames

end

variable {B : Baring} {W W' : Shades}

/-! ## Shades -/

namespace Store

/-- A frame is made inside one with a shade, and the second store has a frame for it too, or leaves it out. -/
inductive Opens (s' : Store) (k : Shade) : Shade → Store → Prop
  | framed : Opens s' k ⟨s'.frames.size, true :: k.pattern⟩ (s'.add (some k.frame)).2
  | bare : Opens s' k ⟨k.frame, false :: k.pattern⟩ s'

namespace Opens

variable {s' s₁' : Store} {k k' : Shade}

theorem size_le (h : s'.Opens k k' s₁') : s'.frames.size ≤ s₁'.frames.size := by
  cases h with
  | framed => simp [size_add]
  | bare => exact Nat.le_refl _

theorem lt (h : s'.Opens k k' s₁') (hk : k.frame < s'.frames.size) : k'.frame < s₁'.frames.size := by
  cases h with
  | framed => simp [size_add]
  | bare => exact hk

theorem chain (h : s'.Opens k k' s₁') {f : FrameId} (hf : f < s'.frames.size) : s₁'.chain f = s'.chain f := by
  cases h with
  | framed => exact s'.chain_add _ f hf
  | bare => rfl

theorem cells (h : s'.Opens k k' s₁') (f : FrameId) : s₁'.cells f = s'.cells f := by
  cases h with
  | framed => exact Store.cells_add ..
  | bare => rfl

end Opens
end Store

namespace Shades

theorem Le.refl (W : Shades) : W.Le W := fun _ _ h => h

theorem Le.trans {W'' : Shades} (h : W.Le W') (h' : W'.Le W'') : W.Le W'' := fun f k hf => h' f k (h f k hf)

theorem own?_of_true {f g : FrameId} {bs : List Bool} (h : W f = some ⟨g, true :: bs⟩) : W.own? f = some g := by
  simp [own?, h]

theorem own?_of_false {f g : FrameId} {bs : List Bool} (h : W f = some ⟨g, false :: bs⟩) : W.own? f = none := by
  simp [own?, h]

/-- The shades with a new frame. -/
def opened (W : Shades) (f : FrameId) (k : Shade) : Shades := Function.update W f (some k)

theorem opened_self (W : Shades) (f : FrameId) (k : Shade) : W.opened f k f = some k := Function.update_self ..

theorem opened_of_ne {f g : FrameId} (h : g ≠ f) (k : Shade) : W.opened f k g = W g := Function.update_of_ne h ..

theorem own?_opened_of_ne {f g : FrameId} (h : g ≠ f) (k : Shade) : (W.opened f k).own? g = W.own? g := by
  rw [own?, opened_of_ne h, own?]

namespace Mirror

variable {s s' : Store}

theorem lt_of_own? (h : W.Mirror s s') {f g : FrameId} (hf : W.own? f = some g) :
    f < s.frames.size ∧ g < s'.frames.size ∧ ∃ bs, W f = some ⟨g, bs⟩ := by
  obtain ⟨k, hk, hg⟩ := Option.bind_eq_some_iff.1 hf
  obtain ⟨-, hg⟩ := Option.ite_none_right_eq_some.1 hg
  cases hg
  exact ⟨(h.bounded f k hk).1, (h.bounded f k hk).2, k.pattern, hk⟩

theorem le_opened (h : W.Mirror s s') (k : Shade) : W.Le (W.opened s.frames.size k) := fun f kf hf => by
  rwa [opened_of_ne (Nat.ne_of_lt (h.bounded f kf hf).1)]

/-- The frames around an old frame are old, and have the frames that they had. -/
theorem own?_opened_of_mem (h : W.Mirror s s') (k : Shade) {f g : FrameId} (hg : g ∈ s.chain f) :
    (W.opened s.frames.size k).own? g = W.own? g := own?_opened_of_ne (Nat.ne_of_lt (h.around f g hg)) k

/-- A new frame, and the old ones with the shades that they had. -/
theorem cases_opened (h : W.Mirror s s') {f : FrameId} {k k' : Shade} (hf : W.opened s.frames.size k' f = some k) :
    (f = s.frames.size ∧ k = k') ∨ (f < s.frames.size ∧ W f = some k) := by
  by_cases hne : f = s.frames.size
  · subst hne
    cases (W.opened_self _ k').symm.trans hf
    exact .inl ⟨rfl, rfl⟩
  · rw [opened_of_ne hne] at hf
    exact .inr ⟨(h.bounded f k hf).1, hf⟩

variable {outer : FrameId} {k k' : Shade} {s₁' : Store}

theorem pattern_opened (h : W.Mirror s s') (ho : W outer = some k) (hk : s'.Opens k k' s₁') :
    (s.frames.size :: s.chain outer).map (fun g => ((W.opened s.frames.size k').own? g).isSome) = k'.pattern := by
  have hmap : (s.chain outer).map (fun g => ((W.opened s.frames.size k').own? g).isSome) = k.pattern := by
    rw [← h.pattern outer k ho]
    exact List.map_congr_left fun g hg => by rw [h.own?_opened_of_mem k' hg]
  rw [List.map_cons, hmap]
  cases hk with
  | framed => rw [own?_of_true (W.opened_self _ _), Option.isSome_some]
  | bare => rw [own?_of_false (W.opened_self _ _), Option.isSome_none]

theorem chain_opened (h : W.Mirror s s') (ho : W outer = some k) (hk : s'.Opens k k' s₁') :
    s₁'.chain k'.frame = (s.frames.size :: s.chain outer).filterMap (W.opened s.frames.size k').own? := by
  have hfilter : (s.chain outer).filterMap (W.opened s.frames.size k').own? = s'.chain k.frame := by
    rw [h.chain outer k ho]
    exact List.filterMap_congr fun g hg => h.own?_opened_of_mem k' hg
  cases hk with
  | framed =>
    rw [List.filterMap_cons_some (own?_of_true (W.opened_self _ _)), hfilter]
    exact s'.chain_add_new k.frame
  | bare => rw [List.filterMap_cons_none (own?_of_false (W.opened_self _ _)), hfilter]

/-- The frame of the new frame is no other frame's. -/
theorem apart_opened (h : W.Mirror s s') (hk : s'.Opens k k' s₁') {f g : FrameId}
    (hnew : (W.opened s.frames.size k').own? s.frames.size = some g)
    (hf : (W.opened s.frames.size k').own? f = some g) :
    f = s.frames.size := by
  by_contra hne
  rw [own?_opened_of_ne hne] at hf
  cases hk with
  | framed =>
    cases (own?_of_true (W.opened_self _ _)).symm.trans hnew
    exact Nat.lt_irrefl _ (h.lt_of_own? hf).2.1
  | bare => cases (own?_of_false (W.opened_self _ _)).symm.trans hnew

/-- **A new frame.** -/
theorem add (h : W.Mirror s s') (ho : W outer = some k) (hk : s'.Opens k k' s₁') :
    (W.opened s.frames.size k').Mirror (s.add (some outer)).2 s₁' where
  globals := h.le_opened k' _ _ h.globals
  top := by rw [s.chain_add _ _ (h.bounded _ _ h.globals).1, h.top]
  bounded f kf hf := by
    rw [Store.size_add]
    rcases h.cases_opened hf with ⟨rfl, rfl⟩ | ⟨hlt, hf⟩
    · exact ⟨Nat.lt_succ_self _, hk.lt (h.bounded outer k ho).2⟩
    · exact ⟨Nat.lt_succ_of_lt hlt, Nat.lt_of_lt_of_le (h.bounded f kf hf).2 hk.size_le⟩
  around f g hg := by
    rw [Store.size_add]
    rw [Store.chain_add_eq] at hg
    split at hg
    · exact Nat.lt_succ_of_lt (h.around f g hg)
    · split at hg
      · next hf =>
        rcases List.mem_cons.1 hg with rfl | hg
        · exact Nat.lt_succ_of_le (Nat.le_of_eq hf)
        · exact Nat.lt_succ_of_lt (h.around outer g hg)
      · cases hg
  pattern f kf hf := by
    rcases h.cases_opened hf with ⟨rfl, rfl⟩ | ⟨hlt, hf⟩
    · rw [s.chain_add_new outer]
      exact h.pattern_opened ho hk
    · rw [s.chain_add _ f hlt, ← h.pattern f kf hf]
      exact List.map_congr_left fun g hg => by rw [h.own?_opened_of_mem k' hg]
  chain f kf hf := by
    rcases h.cases_opened hf with ⟨rfl, rfl⟩ | ⟨hlt, hf⟩
    · rw [s.chain_add_new outer]
      exact h.chain_opened ho hk
    · rw [s.chain_add _ f hlt, hk.chain (h.bounded f kf hf).2, h.chain f kf hf]
      exact (List.filterMap_congr fun g hg => h.own?_opened_of_mem k' hg).symm
  apart f f' g hf hf' := by
    by_cases hne : f = s.frames.size
    · rw [hne] at hf ⊢
      exact (h.apart_opened hk hf hf').symm
    · by_cases hne' : f' = s.frames.size
      · rw [hne'] at hf' ⊢
        exact h.apart_opened hk hf' hf
      · rw [own?_opened_of_ne hne] at hf
        rw [own?_opened_of_ne hne'] at hf'
        exact h.apart f f' g hf hf'

theorem define (h : W.Mirror s s') (f g : FrameId) (x : String) (v v' : Value) :
    W.Mirror (s.define f x v) (s'.define g x v') where
  globals := h.globals
  top := by rw [Store.chain_define, h.top]
  bounded e k he := by simpa using h.bounded e k he
  around e e' he := by simpa using h.around e e' (by simpa using he)
  pattern e k he := by rw [Store.chain_define, h.pattern e k he]
  chain e k he := by rw [Store.chain_define, Store.chain_define, h.chain e k he]
  apart := h.apart

end Mirror
end Shades

theorem Value.Shaded.le {v v' : Value} (h : v.Shaded B W v') (hle : W.Le W') : v.Shaded B W' v' := by
  refine Value.Paired.imp h fun hf => ?_
  obtain ⟨heq, around, hw, hp⟩ := hf
  exact ⟨heq, around, hle _ _ hw, hp⟩

/-! ## Stores -/

namespace Store.Shaded

variable {s s' : Store}

theorem holds (h : s.Shaded B W s') {f g : FrameId} (hf : W.own? f = some g) (x : String) :
    s'.holds x g = s.holds x f :=
  (Cells.Paired.holds (h.cells f g hf) biUnique_eq rfl).symm

theorem define (h : s.Shaded B W s') {f g : FrameId} (hf : W.own? f = some g) (x : String) {v v' : Value}
    (hv : v.Shaded B W v') : (s.define f x v).Shaded B W (s'.define g x v') := by
  obtain ⟨hlt, hlt', -⟩ := h.mirror.lt_of_own? hf
  refine ⟨h.mirror.define f g x v v', fun e e' he => ?_⟩
  rw [Store.cells_define s f x v e hlt, Store.cells_define s' g x v' e' hlt']
  by_cases hef : e = f
  · subst hef
    cases he.symm.trans hf
    rw [if_pos rfl, if_pos rfl]
    exact Cells.Paired.put (h.cells e _ he) biUnique_eq rfl hv
  · have heg : e' ≠ g := fun heg => hef (h.mirror.apart e f g (heg ▸ he) hf)
    rw [if_neg hef, if_neg heg]
    exact h.cells e e' he

theorem add (h : s.Shaded B W s') {outer : FrameId} {k k' : Shade} {s₁' : Store} (ho : W outer = some k)
    (hk : s'.Opens k k' s₁') : (s.add (some outer)).2.Shaded B (W.opened s.frames.size k') s₁' := by
  refine ⟨h.mirror.add ho hk, fun f g hf => ?_⟩
  rw [Store.cells_add, hk.cells]
  by_cases hne : f = s.frames.size
  · subst hne
    cases hk with
    | framed =>
      cases (Shades.own?_of_true (W.opened_self _ _)).symm.trans hf
      rw [Store.cells_of_le (Nat.le_refl _), Store.cells_of_le (Nat.le_refl _)]
      exact .nil
    | bare => cases (Shades.own?_of_false (W.opened_self _ _)).symm.trans hf
  · rw [Shades.own?_opened_of_ne hne] at hf
    exact (h.cells f g hf).imp fun _ _ hc => ⟨hc.1, Value.Shaded.le hc.2 (h.mirror.le_opened k')⟩

end Store.Shaded

/-! ## Looking a name up -/

/-- The elements that a list keeps are counted by the ones before them that it keeps. -/
theorem getElem?_filterMap_countP {α β : Type} {p : α → Option β} {x : α} {y : β} (hy : p x = some y) :
    ∀ {l : List α} {d : Nat}, l[d]? = some x → (l.filterMap p)[(l.take d).countP fun a => (p a).isSome]? = some y
  | a :: l, 0, h => by
    cases h
    rw [List.filterMap_cons_some hy]
    rfl
  | a :: l, d + 1, h => by
    have ih := getElem?_filterMap_countP hy (l := l) (d := d) h
    cases ha : p a with
    | none => simpa [ha] using ih
    | some b => simpa [ha] using ih

namespace Machine.Shaded

variable {m m' : Machine} {around : Surroundings}

/-- Of the frames around a place, the one of a scope that has a frame, as many out as there are frames inside it. -/
theorem ancestor? (h : m.Shaded B W m') (hh : W m.here = some ⟨m'.here, around.pattern B.bare⟩) {d : Nat}
    {q : LocalScope × Nat} (hq : around[d]? = some q) (hqf : q.1.framed B.bare = true) :
    ∃ f g, m.store.ancestor? m.here d = some f ∧
      m'.store.ancestor? m'.here ((around.take d).countP fun q => q.1.framed B.bare) = some g ∧ W.own? f = some g := by
  have hpattern := h.store.mirror.pattern _ _ hh
  have hd : d < around.length := (List.getElem?_eq_some_iff.1 hq).1
  obtain ⟨f, hf, hown⟩ : ∃ f, (m.store.chain m.here)[d]? = some f ∧ (W.own? f).isSome = true := by
    have hat := congrArg (·[d]?) hpattern
    simp only [Surroundings.pattern, List.getElem?_map, List.getElem?_append_left, List.length_map, hd, hq,
      Option.map_some, Option.map_eq_some_iff] at hat
    obtain ⟨f, hf, hown⟩ := hat
    exact ⟨f, hf, hown.trans hqf⟩
  obtain ⟨g, hg⟩ := Option.isSome_iff_exists.1 hown
  refine ⟨f, g, hf, ?_, hg⟩
  have hcount : ((m.store.chain m.here).take d).countP (fun f => (W.own? f).isSome) =
      (around.take d).countP fun q => q.1.framed B.bare :=
    calc ((m.store.chain m.here).take d).countP (fun f => (W.own? f).isSome)
        = (((m.store.chain m.here).map fun f => (W.own? f).isSome).take d).countP id := by
          rw [← List.map_take, List.countP_map]
          rfl
      _ = ((around.take d).map fun q => q.1.framed B.bare).countP id := by
          rw [hpattern, Surroundings.pattern, List.take_append_of_le_length (by simpa using Nat.le_of_lt hd),
            List.map_take]
      _ = (around.take d).countP fun q => q.1.framed B.bare := by
          rw [List.countP_map]
          rfl
  rw [← hcount, Store.ancestor?, h.store.mirror.chain _ _ hh]
  exact getElem?_filterMap_countP hg hf

/-- **The occurrence finds the frame that has the same cells.** -/
theorem holder? (h : m.Shaded B W m') (hh : W m.here = some ⟨m'.here, around.pattern B.bare⟩) {o : Occurrence}
    (ho : B.Known (around, o)) :
    Option.Rel (fun f g => W.own? f = some g) (m.holder? o.id o.name.lexeme) (m'.holder? o.id o.name.lexeme) := by
  obtain ⟨hscopes, hframes⟩ := B.tables _ ho
  obtain ⟨hdist, hframed⟩ := around.distance?_framed B.undeclaring o.name.lexeme
  have hchosen : ∀ {f g : FrameId}, W.own? f = some g →
      Option.Rel (fun f g => W.own? f = some g) ((some f).filter (m.store.holds o.name.lexeme))
        ((some g).filter (m'.store.holds o.name.lexeme)) := fun {f g} hf => by
    rw [Option.filter_some, Option.filter_some, h.store.holds hf]
    split
    · exact .some hf
    · exact .none
  unfold Machine.holder? Store.holderAt? Store.nearest?
  rw [h.left, h.right, hscopes, hframes, hdist]
  cases hd : around.distance? o.name.lexeme with
  | some d =>
    obtain ⟨q, hq, hqf⟩ := hframed d hd
    obtain ⟨f, g, hf, hg, hown⟩ := ancestor? h hh hq hqf
    simp only [Option.map_some, hf, hg]
    exact hchosen hown
  | none =>
    have hown : W.own? globals = some globals := Shades.own?_of_true h.store.mirror.globals
    have htop : m'.store.chain globals = [globals] := by
      rw [h.store.mirror.chain _ _ h.store.mirror.globals, h.store.mirror.top, List.filterMap_cons_some hown]
      rfl
    simp only [Option.map_none, h.store.mirror.top, htop, List.find?_singleton, ← Option.filter_some]
    exact hchosen hown

end Machine.Shaded

end Scriptlet
