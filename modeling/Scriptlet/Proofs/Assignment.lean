import Mathlib
import Scriptlet.Proofs.Frames
import Scriptlet.Proofs.Steps

/-!
# Assignment

Frames are made one after the other, each on its own or inside an older one, and names are defined in them
(`Store.Built`).  The frames around a frame are then those that its links lead to (`Built.ancestor?_eq`).  An
assignment gives one name of one frame a new value: the nearest frame outward that holds it, or the one a number of
links out.  What is read from any other frame changes only where the reader comes to that frame (`Store.Wrote`), and an
assignment that finds no frame changes nothing (`assignment_changes_one_cell`).
-/
namespace Scriptlet

/-- For each frame, in the order in which they were made, the frame it was put inside. -/
abbrev Links := List (Option FrameId)

/-- The frame so many links out. -/
def Links.out (links : Links) : Nat → FrameId → Option FrameId
  | 0, f => some f
  | d + 1, f => links[f]?.join.bind (links.out d)

namespace Store

/-- The store has been made frame by frame, with names defined in between. -/
inductive Built : Store → Links → Prop
  | empty : Built .empty []
  /-- A frame on its own, or inside one that is there. -/
  | add {s : Store} {links : Links} (h : Built s links) {outer : Option FrameId}
      (ho : ∀ f, outer = some f → f < s.frames.size) : Built (s.add outer).2 (links ++ [outer])
  | define {s : Store} {links : Links} (h : Built s links) (f : FrameId) (x : String) (v : Value) :
      Built (s.define f x v) links

/-- Outward from `f`, the frame `h` is the first that holds the name. -/
def Nearest (s : Store) (links : Links) (f : FrameId) (x : String) (h : FrameId) : Prop :=
  ∃ d, links.out d f = some h ∧ s.holds x h = true ∧ ∀ e < d, ∀ g, links.out e f = some g → s.holds x g = false

/-- **One cell has been written**, the name `x` of the frame `h`, and nothing else has changed. -/
structure Wrote (s : Store) (links : Links) (h : FrameId) (x : String) (v : Value) (s' : Store) : Prop where
  /-- The frames and their links are the same. -/
  built : s'.Built links
  cell : ∀ g y, (s'.cells g).lookup y = if g = h ∧ y = x then some v else (s.cells g).lookup y
  names : ∀ g y, s'.holds y g = s.holds y g
  get_new : ∀ g < s.frames.size, ∀ y : Token, y.lexeme = x → s.Nearest links g x h → s'.get g y = .ok v
  get_old : ∀ g < s.frames.size, ∀ y : Token, ¬ (y.lexeme = x ∧ s.Nearest links g x h) → s'.get g y = s.get g y
  getAt : ∀ g < s.frames.size, ∀ e (y : Token),
    s'.getAt g e y = if y.lexeme = x ∧ links.out e g = some h then .ok v else s.getAt g e y

variable {s s' : Store} {links : Links} {f g h : FrameId} {x : String}

/-! ## Links -/

namespace Built

theorem size (hs : s.Built links) : s.frames.size = links.length := by
  induction hs with
  | empty => rfl
  | add _ _ ih => rw [size_add, ih, List.length_append, List.length_singleton]
  | define _ f x v ih => rw [size_define, ih]

/-- A link leads to an older frame. -/
theorem link_lt (hs : s.Built links) (hl : links[f]?.join = some g) : g < f := by
  induction hs with
  | empty => cases hl
  | @add s links hs outer ho ih =>
    by_cases hf : f < links.length
    · rw [List.getElem?_append_left hf] at hl
      exact ih hl
    · rw [List.getElem?_append_right (Nat.le_of_not_lt hf), List.getElem?_singleton] at hl
      split at hl
      · have := ho g hl
        rw [hs.size] at this
        exact Nat.lt_of_lt_of_le this (Nat.le_of_not_lt hf)
      · cases hl
  | define _ _ _ _ ih => exact ih hl

/-- The frames around a frame are the one it was put inside, and those around that one. -/
theorem chain_eq (hs : s.Built links) (hf : f < s.frames.size) :
    s.chain f = f :: (links[f]?.join.map s.chain).getD [] := by
  induction hs generalizing f with
  | empty => cases hf
  | @add s links hs outer ho ih =>
    -- The frames that were there keep their chains, and a link leads to one of them.
    have hold : ∀ o : Option FrameId, (∀ g, o = some g → g < s.frames.size) →
        o.map (s.add outer).2.chain = o.map s.chain := fun o hlt => by
      cases o with
      | none => rfl
      | some g => rw [Option.map_some, Option.map_some, chain_add s outer g (hlt g rfl)]
    rw [size_add] at hf
    rcases Nat.lt_succ_iff_lt_or_eq.1 hf with hf | rfl
    · rw [chain_add s outer f hf, List.getElem?_append_left (hs.size ▸ hf), ih hf,
        hold _ fun g hg => Nat.lt_trans (hs.link_lt hg) hf]
    · rw [hs.size, List.getElem?_concat_length, ← hs.size, Option.join_some, hold _ ho]
      exact chain_add_self s outer
  | @define s links _ g x v ih =>
    rw [size_define] at hf
    rw [funext (chain_define s g x v)]
    exact ih hf

/-- **So many frames out is so many links out.** -/
theorem ancestor?_eq (hs : s.Built links) (d : Nat) : ∀ f < s.frames.size, s.ancestor? f d = links.out d f := by
  induction d with
  | zero =>
    intro f hf
    rw [ancestor?, hs.chain_eq hf]
    rfl
  | succ d ih =>
    intro f hf
    rw [ancestor?, hs.chain_eq hf, List.getElem?_cons_succ, Links.out]
    cases hl : links[f]?.join with
    | none => rfl
    | some g => exact ih g (Nat.lt_trans (hs.link_lt hl) hf)

theorem nearest?_eq_some_iff (hs : s.Built links) (hf : f < s.frames.size) :
    s.nearest? f x = some h ↔ s.Nearest links f x h := by
  have hout : ∀ d, (s.chain f)[d]? = links.out d f := fun d => hs.ancestor?_eq d f hf
  rw [nearest?, List.find?_eq_some_iff_getElem, Nearest]
  -- On both sides nothing in front of place `d` holds the name: the places of the chain are the numbers of links.
  constructor
  · rintro ⟨hx, d, hd, hh, hbefore⟩
    refine ⟨d, by rw [← hout, List.getElem?_eq_getElem hd, hh], hx, fun e he g hg => ?_⟩
    rw [← hout] at hg
    obtain ⟨he', rfl⟩ := List.getElem?_eq_some_iff.1 hg
    simpa using hbefore e he
  · rintro ⟨d, hd, hx, hbefore⟩
    rw [← hout] at hd
    obtain ⟨hd, hh⟩ := List.getElem?_eq_some_iff.1 hd
    refine ⟨hx, d, hd, hh, fun e he => ?_⟩
    rw [hbefore e he _ (by rw [← hout]; exact List.getElem?_eq_getElem (Nat.lt_trans he hd))]
    rfl

theorem nearest?_eq_none_iff (hs : s.Built links) (hf : f < s.frames.size) :
    s.nearest? f x = none ↔ ∀ d g, links.out d f = some g → s.holds x g = false := by
  rw [nearest?, List.find?_eq_none]
  simp only [← hs.ancestor?_eq _ f hf, ancestor?, List.mem_iff_getElem?, Bool.not_eq_true]
  exact ⟨fun hn d g hg => hn g ⟨d, hg⟩, fun hn g ⟨d, hg⟩ => hn d g hg⟩

theorem holderAt?_eq_some_iff (hs : s.Built links) (hf : f < s.frames.size) {d : Nat} :
    s.holderAt? f d x = some h ↔ links.out d f = some h ∧ s.holds x h = true := by
  rw [holderAt?, hs.ancestor?_eq d f hf, Option.filter_eq_some_iff]

theorem holderAt?_eq_none_iff (hs : s.Built links) (hf : f < s.frames.size) {d : Nat} :
    s.holderAt? f d x = none ↔ links.out d f = none ∨ ∃ g, links.out d f = some g ∧ s.holds x g = false := by
  rw [holderAt?, hs.ancestor?_eq d f hf]
  cases links.out d f <;> simp

end Built

/-! ## Reading and writing -/

theorem write_eq_ok_iff {holder : Option FrameId} {name : Token} {v : Value} :
    s.write holder name v = .ok s' ↔ ∃ h, holder = some h ∧ s' = s.define h name.lexeme v := by
  cases holder <;> simp [write, eq_comm]

theorem write_eq_error_iff {holder : Option FrameId} {name : Token} {v : Value} {fault : Fault} :
    s.write holder name v = .error fault ↔ fault = undefined name ∧ holder = none := by
  cases holder <;> simp [write, eq_comm]

/-- A frame that holds the name has a value to read. -/
theorem read_eq_error_iff {holder : Option FrameId} {name : Token} {fault : Fault}
    (hh : ∀ h, holder = some h → s.holds name.lexeme h = true) :
    s.read holder name = .error fault ↔ fault = undefined name ∧ holder = none := by
  cases holder with
  | none => simp [read, eq_comm]
  | some h =>
    obtain ⟨v, hv⟩ := holds_iff_lookup.1 (hh h rfl)
    simp [read, hv]

section

variable (hx : s.holds x h = true) (v : Value)
include hx

theorem lookup_define_held (g : FrameId) (y : String) :
    ((s.define h x v).cells g).lookup y = if g = h ∧ y = x then some v else (s.cells g).lookup y := by
  rw [cells_define s h x v g (lt_of_holds hx)]
  by_cases hg : g = h
  · simp [hg, Cells.lookup_put]
  · simp [hg]

theorem nearest?_define_held (f : FrameId) (y : String) : (s.define h x v).nearest? f y = s.nearest? f y := by
  rw [nearest?, nearest?, chain_define, funext (holds_define_held hx v y)]

theorem holderAt?_define_held (f : FrameId) (d : Nat) (y : String) :
    (s.define h x v).holderAt? f d y = s.holderAt? f d y := by
  rw [holderAt?, holderAt?, ancestor?, chain_define, funext (holds_define_held hx v y)]
  rfl

/-- A reader sees the new value if it comes to the frame for the name. -/
theorem read_define_held (holder : Option FrameId) (y : Token) :
    (s.define h x v).read holder y = if y.lexeme = x ∧ holder = some h then .ok v else s.read holder y := by
  cases holder with
  | none => simp [read]
  | some g =>
    unfold read
    rw [Option.bind_some, Option.bind_some, lookup_define_held hx v]
    by_cases hgy : g = h ∧ y.lexeme = x
    · simp [hgy]
    · rw [if_neg hgy, if_neg fun hyg => hgy ⟨Option.some.inj hyg.2, hyg.1⟩]

/-- **A new value for a name that is there is one cell written.** -/
theorem Built.wrote (hs : s.Built links) : s.Wrote links h x v (s.define h x v) where
  built := hs.define h x v
  cell := lookup_define_held hx v
  names g y := holds_define_held hx v y g
  get_new g hg y hy hn := by
    rw [get, nearest?_define_held hx v, read_define_held hx v, hy, (hs.nearest?_eq_some_iff hg).2 hn]
    simp
  get_old g hg y hn := by
    rw [get, nearest?_define_held hx v, read_define_held hx v, if_neg]
    · rfl
    · rintro ⟨hy, hh⟩
      exact hn ⟨hy, (hs.nearest?_eq_some_iff hg).1 (hy ▸ hh)⟩
  getAt g hg e y := by
    rw [Store.getAt, holderAt?_define_held hx v, read_define_held hx v]
    refine if_congr ?_ rfl rfl
    constructor
    · rintro ⟨hy, hh⟩
      exact ⟨hy, ((hs.holderAt?_eq_some_iff hg).1 hh).1⟩
    · rintro ⟨hy, ho⟩
      exact ⟨hy, (hs.holderAt?_eq_some_iff hg).2 ⟨ho, hy ▸ hx⟩⟩

end
end Store

/-- How a run goes on behind an assignment: with the new store, or with the fault and the machine as it was. -/
def Machine.goOn (m : Machine) : Except Fault Store → Signal Unit × Machine
  | .ok s => (.value (), { m with store := s })
  | .error fault => (.failed fault, m)

theorem Run.assign_eq (id : Nat) (name : Token) (v : Value) (m : Machine) :
    Run.assign id name v m = m.goOn (m.store.write (m.holder? id name.lexeme) name v) := by
  unfold Run.assign
  cases m.holder? id name.lexeme <;> rfl

namespace Store

/-- **An assignment changes one cell, and one that fails changes nothing.**  In a store made frame by frame: an
assignment outward that succeeds writes the nearest frame that holds the name, and one by a distance the frame that
many links out, which holds it; only the one cell is written, so what is read from any frame, outward or by a distance,
is the new value where the reader comes to that cell and what it was everywhere else.  An assignment fails, as does a
read in its place, if no frame outward holds the name, or not the one frame at the distance; the fault is the same one,
at the line of the name.  A run goes on with the store that is written, and after a fault with the machine as it
was. -/
theorem assignment_changes_one_cell {s : Store} {links : Links} (hs : s.Built links) {f : FrameId}
    (hf : f < s.frames.size) (name : Token) (v : Value) (d : Nat) :
    (∀ s', s.assign f name v = .ok s' →
      ∃ h, s.Nearest links f name.lexeme h ∧ s.Wrote links h name.lexeme v s') ∧
    (∀ s', s.assignAt f d name v = .ok s' →
      ∃ h, links.out d f = some h ∧ s.holds name.lexeme h = true ∧ s.Wrote links h name.lexeme v s') ∧
    (∀ fault,
      (s.assign f name v = .error fault ↔
        fault = undefined name ∧ ∀ e g, links.out e f = some g → s.holds name.lexeme g = false) ∧
      (s.get f name = .error fault ↔
        fault = undefined name ∧ ∀ e g, links.out e f = some g → s.holds name.lexeme g = false)) ∧
    (∀ fault,
      (s.assignAt f d name v = .error fault ↔ fault = undefined name ∧
        (links.out d f = none ∨ ∃ g, links.out d f = some g ∧ s.holds name.lexeme g = false)) ∧
      (s.getAt f d name = .error fault ↔ fault = undefined name ∧
        (links.out d f = none ∨ ∃ g, links.out d f = some g ∧ s.holds name.lexeme g = false))) ∧
    (undefined name).message =
      "Undefined variable '" ++ name.lexeme ++ "'." ++ "\n[Line: " ++ digitsText name.line ++ "]" ∧
    (∀ (m : Machine) (id e : Nat), m.bindings[id]? = some e →
      Run.assign id name v m = m.goOn (m.store.assignAt m.here e name v)) ∧
    ∀ (m : Machine) (id : Nat), m.bindings[id]? = none →
      Run.assign id name v m = m.goOn (m.store.assign Machine.globals name v) := by
  refine ⟨fun s' hw => ?_, fun s' hw => ?_, fun fault => ⟨?_, ?_⟩, fun fault => ⟨?_, ?_⟩, rfl, fun m id e hb => ?_,
    fun m id hb => ?_⟩
  · obtain ⟨h, hh, rfl⟩ := write_eq_ok_iff.1 hw
    exact ⟨h, (hs.nearest?_eq_some_iff hf).1 hh, hs.wrote (holds_of_nearest? hh) v⟩
  · obtain ⟨h, hh, rfl⟩ := write_eq_ok_iff.1 hw
    obtain ⟨ho, hx⟩ := (hs.holderAt?_eq_some_iff hf).1 hh
    exact ⟨h, ho, hx, hs.wrote hx v⟩
  · rw [assign, write_eq_error_iff, hs.nearest?_eq_none_iff hf]
  · rw [get, read_eq_error_iff fun h => holds_of_nearest?, hs.nearest?_eq_none_iff hf]
  · rw [assignAt, write_eq_error_iff, hs.holderAt?_eq_none_iff hf]
  · rw [getAt, read_eq_error_iff fun h => holds_of_holderAt?, hs.holderAt?_eq_none_iff hf]
  · rw [Run.assign_eq, Machine.holder?, hb]
    rfl
  · rw [Run.assign_eq, Machine.holder?, hb]
    rfl

/-- Two frames that hold `x`, one inside the other; a frame inside the inner one, and one beside it. -/
def family : Store :=
  let s := (empty.add none).2
  let s := ((s.define 0 "x" (.bool true)).add (some 0)).2
  let s := ((s.define 1 "x" (.bool false)).add (some 1)).2
  (s.add (some 0)).2

theorem family_built : family.Built [none, some 0, some 1, some 0] := by
  have h := (@Built.add _ _ .empty none (by simp)).define 0 "x" (.bool true)
  have h := (@Built.add _ _ h (some 0) (by decide)).define 1 "x" (.bool false)
  have h := @Built.add _ _ h (some 1) (by decide)
  exact @Built.add _ _ h (some 0) (by decide)

theorem inner_assignment_spares_sibling : ∃ s', family.assign 2 ⟨.identifier, "x", 7⟩ .nil = .ok s' ∧
    (∃ h, family.Nearest [none, some 0, some 1, some 0] 2 "x" h ∧
      family.Wrote [none, some 0, some 1, some 0] h "x" .nil s') ∧
    s'.get 2 ⟨.identifier, "x", 8⟩ = .ok .nil ∧ s'.get 3 ⟨.identifier, "x", 8⟩ = .ok (.bool true) ∧
    family.assignAt 2 3 ⟨.identifier, "x", 9⟩ .nil = .error (.run 9 (.undefinedVariable "x")) := by
  have hf : 2 < family.frames.size := by decide
  refine ⟨_, rfl, (assignment_changes_one_cell family_built hf ⟨.identifier, "x", 7⟩ .nil 0).1 _ rfl, rfl, rfl, ?_⟩
  obtain ⟨-, -, -, hat, -⟩ := assignment_changes_one_cell family_built hf ⟨.identifier, "x", 9⟩ .nil 3
  exact (hat _).1.2 ⟨rfl, .inl rfl⟩

end Store
end Scriptlet
