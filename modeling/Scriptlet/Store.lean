import Scriptlet.Fault
import Scriptlet.Value

/-!
# The store

All frames of a run.  A frame holds names with their values and knows the frames around it, innermost first; frames are
added and their cells change, but a frame is never taken away and what is around it never changes.

A name is looked up in two ways: outward from a frame to the nearest one that holds it, or in the one frame a given
number of steps out.
-/
namespace Scriptlet

/-- Names with their values, each name once. -/
abbrev Cells := List (String × Value)

namespace Cells

def holds (cells : Cells) (name : String) : Bool := cells.any (·.1 = name)

/-- Gives a name its value, whether it is there already or not. -/
def put (name : String) (value : Value) : Cells → Cells
  | [] => [(name, value)]
  | (key, old) :: cells => if key = name then (key, value) :: cells else (key, old) :: put name value cells

theorem lookup_cons_if (key k : String) (v : Value) (cells : Cells) :
    List.lookup key ((k, v) :: cells) = if key = k then some v else List.lookup key cells := by
  rw [List.lookup_cons]
  by_cases h : key = k
  · simp [h]
  · rw [if_neg h, beq_eq_false_iff_ne.2 h]

/-- **What `put` does**: the name has the value, and no other name is touched. -/
theorem lookup_put (name : String) (value : Value) (key : String) :
    ∀ cells : Cells, (put name value cells).lookup key = if key = name then some value else cells.lookup key
  | [] => lookup_cons_if key name value []
  | (k, old) :: cells => by
    have ih := lookup_put name value key cells
    unfold put
    split <;> grind [lookup_cons_if]

theorem holds_eq_isSome (name : String) : ∀ cells : Cells, cells.holds name = (cells.lookup name).isSome
  | [] => rfl
  | (k, v) :: cells => by
    have ih := holds_eq_isSome name cells
    rw [lookup_cons_if]
    unfold holds at ih ⊢
    grind

theorem holds_put (name : String) (value : Value) (key : String) (cells : Cells) :
    (put name value cells).holds key = (key = name || cells.holds key) := by
  rw [holds_eq_isSome, holds_eq_isSome, lookup_put]
  split <;> simp_all

end Cells

structure Frame where
  cells : Cells
  /-- The frames around this one, innermost first. -/
  enclosing : List FrameId

structure Store where
  frames : Array Frame

namespace Store

def empty : Store := ⟨#[]⟩

/-- A frame and the frames around it. -/
def chain (s : Store) (f : FrameId) : List FrameId :=
  match s.frames[f]? with
  | some frame => f :: frame.enclosing
  | none => []

/-- A new frame, empty, inside another one if that is given. -/
def add (s : Store) (outer : Option FrameId) : FrameId × Store :=
  let enclosing := match outer with
    | some f => s.chain f
    | none => []
  (s.frames.size, ⟨s.frames.push ⟨[], enclosing⟩⟩)

def cells (s : Store) (f : FrameId) : Cells := (s.frames[f]?.map Frame.cells).getD []

def holds (s : Store) (name : String) (f : FrameId) : Bool := (s.cells f).holds name

/-- Gives a name its value in one frame. -/
def define (s : Store) (f : FrameId) (name : String) (value : Value) : Store :=
  match s.frames[f]? with
  | some frame => ⟨s.frames.setIfInBounds f { frame with cells := frame.cells.put name value }⟩
  | none => s

/-- The frame a number of steps out. -/
def ancestor? (s : Store) (f : FrameId) (distance : Nat) : Option FrameId := (s.chain f)[distance]?

/-- The nearest frame outward that holds the name. -/
def nearest? (s : Store) (f : FrameId) (name : String) : Option FrameId := (s.chain f).find? (s.holds name)

/-- The one frame a number of steps out, if it holds the name. -/
def holderAt? (s : Store) (f : FrameId) (distance : Nat) (name : String) : Option FrameId :=
  (s.ancestor? f distance).filter (s.holds name)

def undefined (name : Token) : Fault := .run name.line (.undefinedVariable name.lexeme)

/-- The value of a name in the frame that holds it. -/
def read (s : Store) (holder : Option FrameId) (name : Token) : Except Fault Value :=
  match holder.bind fun f => (s.cells f).lookup name.lexeme with
  | some value => .ok value
  | none => .error (undefined name)

/-- Changes the value of a name in the frame that holds it. -/
def write (s : Store) (holder : Option FrameId) (name : Token) (value : Value) : Except Fault Store :=
  match holder with
  | some f => .ok (s.define f name.lexeme value)
  | none => .error (undefined name)

/-- Looks a name up outward. -/
def get (s : Store) (f : FrameId) (name : Token) : Except Fault Value := s.read (s.nearest? f name.lexeme) name

/-- Assigns to a name, found outward. -/
def assign (s : Store) (f : FrameId) (name : Token) (value : Value) : Except Fault Store :=
  s.write (s.nearest? f name.lexeme) name value

/-- Looks a name up in the one frame a number of steps out. -/
def getAt (s : Store) (f : FrameId) (distance : Nat) (name : Token) : Except Fault Value :=
  s.read (s.holderAt? f distance name.lexeme) name

/-- Assigns to a name in the one frame a number of steps out. -/
def assignAt (s : Store) (f : FrameId) (distance : Nat) (name : Token) (value : Value) : Except Fault Store :=
  s.write (s.holderAt? f distance name.lexeme) name value

/-! ## What does not change

Frames keep their chains, and a definition changes one name in one frame. -/

@[simp] theorem size_define (s : Store) (f : FrameId) (name : String) (value : Value) :
    (s.define f name value).frames.size = s.frames.size := by
  unfold define
  split <;> simp

@[simp] theorem chain_define (s : Store) (f : FrameId) (name : String) (value : Value) (g : FrameId) :
    (s.define f name value).chain g = s.chain g := by
  unfold define
  split
  · rename_i frame h
    obtain ⟨hf, rfl⟩ := Array.getElem?_eq_some_iff.1 h
    simp only [chain, Array.getElem?_setIfInBounds]
    by_cases hfg : f = g
    · subst hfg
      simp [hf]
    · simp [hfg]
  · rfl

theorem cells_define (s : Store) (f : FrameId) (name : String) (value : Value) (g : FrameId) (h : f < s.frames.size) :
    (s.define f name value).cells g = if g = f then (s.cells f).put name value else s.cells g := by
  have hf : s.frames[f]? = some s.frames[f] := Array.getElem?_eq_getElem h
  simp only [define, hf, cells, Array.getElem?_setIfInBounds]
  by_cases hfg : f = g
  · subst hfg
    simp [h]
  · simp [hfg, Ne.symm hfg]

theorem chain_add (s : Store) (outer : Option FrameId) (g : FrameId) (h : g < s.frames.size) :
    (s.add outer).2.chain g = s.chain g := by
  simp [add, chain, Array.getElem?_push, Nat.ne_of_lt h]

theorem chain_add_self (s : Store) (outer : Option FrameId) :
    (s.add outer).2.chain (s.add outer).1 = (s.add outer).1 :: ((outer.map s.chain).getD []) := by
  cases outer <;> simp [add, chain]

end Store
end Scriptlet
