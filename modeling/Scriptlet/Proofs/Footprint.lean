import Mathlib
import Scriptlet.Proofs.Enclosure

/-!
# What a call can touch

The frames that a call can get to are the global one, those that the function and its arguments close over, those that
enclose one of these, and those that a function stored in one of these closes over (`Store.Reached`).  The others are a
set that every run of the function's body leaves alone (`Territory.sparing`), so a call changes nothing in them,
whatever table it runs with and however it ends (`call_touches_reached`).
-/
namespace Scriptlet

namespace Store

/-- The frames that can be got to from the global one and the values. -/
inductive Reached (s : Store) (values : List Value) : FrameId → Prop
  | globals : Reached s values Machine.globals
  | value {v : Value} {f : FrameId} (hv : v ∈ values) (hf : v.frame? = some f) : Reached s values f
  | outer {f g : FrameId} (h : Reached s values f) (ho : s.outer? f = some g) : Reached s values g
  | stored {f g : FrameId} {c : String × Value} (h : Reached s values f) (hc : c ∈ s.cells f)
      (hg : c.2.frame? = some g) :
      Reached s values g

/-- The functions that can be got to: the values, and what is stored in the frames that can be got to. -/
inductive Available (s : Store) (values : List Value) : Value → Prop
  | given {v : Value} (h : v ∈ values) : Available s values v
  | stored {f : FrameId} {c : String × Value} (h : s.Reached values f) (hc : c ∈ s.cells f) : Available s values c.2

variable {s : Store} {values : List Value}

/-- With a frame, all frames around it can be got to. -/
theorem Reached.around (h : s.Linked) {f g : FrameId} (hr : s.Reached values f) (hg : g ∈ s.chain f) :
    s.Reached values g := by
  refine h.inward (P := fun f => s.Reached values f → g ∈ s.chain f → s.Reached values g) ?_
    (fun f o _ ho hc ih hr hg => ?_)
    f (lt_of_mem_chain hg) hr hg
  · rw [h.globals]
    simp only [List.mem_singleton]
    rintro hr rfl
    exact hr
  · rw [hc] at hg
    rcases List.mem_cons.1 hg with rfl | hg
    · exact hr
    · exact ih (hr.outer ho) hg

/-- The frames around a frame that is around another one are around that one. -/
theorem Linked.chain_trans (h : s.Linked) {e f g : FrameId} (hf : f ∈ s.chain e) (hg : g ∈ s.chain f) :
    g ∈ s.chain e := by
  refine h.inward (P := fun e => f ∈ s.chain e → g ∈ s.chain e) ?_ (fun e o _ _ hc ih hf => ?_) e
    (lt_of_mem_chain hf) hf
  · intro hf
    rw [h.globals, List.mem_singleton] at hf
    rwa [← hf]
  · rw [hc] at hf
    rcases List.mem_cons.1 hf with rfl | hf
    · exact hg
    · rw [hc]
      exact List.mem_cons_of_mem _ (ih hf)

/-- **A local frame can be got to only through a function that has captured it.** -/
theorem Reached.captured (h : s.Linked) {g : FrameId} (hr : s.Reached values g) (hg : g ≠ Machine.globals)
    (hlt : g < s.frames.size) : ∃ v f, s.Available values v ∧ v.frame? = some f ∧ g ∈ s.chain f := by
  induction hr with
  | globals => exact absurd rfl hg
  | value hv hf => exact ⟨_, _, .given hv, hf, self_mem_chain hlt⟩
  | stored hr hc hf _ => exact ⟨_, _, .stored hr hc, hf, self_mem_chain hlt⟩
  | @outer f g hr ho ih =>
    have hgf : g ∈ s.chain f := List.mem_of_getElem? ho
    have hne : f ≠ Machine.globals := fun hf => by
      rw [hf, h.outer?_globals] at ho
      cases ho
    obtain ⟨v, e, hv, he, hfe⟩ := ih hne (lt_of_mem_chain hgf)
    exact ⟨v, e, hv, he, h.chain_trans hfe hgf⟩

theorem frames_define {s : Store} {f g : FrameId} (h : g ≠ f) (x : String) (v : Value) :
    (s.define f x v).frames[g]? = s.frames[g]? := by
  unfold define
  split
  · simp [Ne.symm h]
  · rfl

theorem frames_add {s : Store} {g : FrameId} (h : g < s.frames.size) (outer : Option FrameId) :
    (s.add outer).2.frames[g]? = s.frames[g]? := by
  simp [add, Array.getElem?_push, Nat.ne_of_lt h]

/-- The chains of a store with a new frame: the new one is inside the frames around the given one. -/
theorem mem_chain_add {s : Store} {e f g : FrameId} (h : g ∈ (s.add (some e)).2.chain f) :
    g ∈ s.chain f ∨ g = s.frames.size ∨ g ∈ s.chain e := by
  rcases Nat.lt_trichotomy f s.frames.size with hf | rfl | hf
  · rw [chain_add s _ _ hf] at h
    exact .inl h
  · have hc := s.chain_add_self (some e)
    simp only [Option.map_some, Option.getD_some] at hc
    exact .inr (List.mem_cons.1 (hc ▸ h))
  · have hlt := lt_of_mem_chain h
    rw [size_add] at hlt
    exact absurd hlt (Nat.not_lt.2 hf)

end Store

/-! ## Spared frames -/

/-- The frames `U` are as in the store `s₀`, and from a frame outside one does not get into them. -/
structure Store.Spares (s₀ : Store) (U : FrameId → Prop) (s : Store) : Prop where
  same : ∀ u, U u → u < s.frames.size ∧ s.frames[u]? = s₀.frames[u]?
  globals : ¬ U Machine.globals
  around : ∀ f g, ¬ U f → g ∈ s.chain f → ¬ U g
  stored : ∀ f g, ∀ c ∈ s.cells f, ¬ U f → c.2.frame? = some g → ¬ U g

/-- All frames but those of a set. -/
def Territory.sparing (s₀ : Store) (U : FrameId → Prop) : Territory where
  Allows := s₀.Spares U
  Has _ f := ¬ U f
  globals h := h.globals
  around h hf hg := h.around _ _ hf hg
  stored h hf hc hg := h.stored _ _ _ hc hf hg
  later hf _ := hf
  define {s f v} x h hf hv := by
    refine ⟨fun u hu => ?_, h.globals, fun g o => ?_, fun g o c hc hg ho => ?_⟩
    · have hne : u ≠ f := by
        rintro rfl
        exact hf hu
      rw [Store.size_define, Store.frames_define hne]
      exact h.same u hu
    · rw [Store.chain_define]
      exact h.around g o
    · rcases Store.mem_cells_define hc with hc | hc
      · exact hv o (hc ▸ ho)
      · exact h.stored g o c hc hg ho
  add {s f} h hf := by
    have hnew : ¬ U s.frames.size := fun hu => Nat.lt_irrefl _ (h.same _ hu).1
    refine ⟨⟨fun u hu => ?_, h.globals, fun g o hg ho => ?_, fun g o c hc => h.stored g o c (Store.mem_cells_add hc)⟩,
      hnew⟩
    · obtain ⟨hlt, hs⟩ := h.same u hu
      rw [Store.size_add, Store.frames_add hlt]
      exact ⟨Nat.lt_succ_of_lt hlt, hs⟩
    · rcases Store.mem_chain_add ho with ho | rfl | ho
      · exact h.around g o hg ho
      · exact hnew
      · exact h.around f o hf ho

/-- What cannot be got to is spared at the start. -/
theorem Store.Linked.spares {s : Store} (h : s.Linked) (values : List Value) :
    s.Spares (fun g => g < s.frames.size ∧ ¬ s.Reached values g) s where
  same u hu := ⟨hu.1, rfl⟩
  globals hu := hu.2 .globals
  around f g hf hg hu := by
    have hr : s.Reached values f := by
      by_contra hr
      exact hf ⟨lt_of_mem_chain hg, hr⟩
    exact hu.2 (hr.around h hg)
  stored f g c hc hf hg hu := by
    have hlt : f < s.frames.size := by
      by_contra hge
      rw [cells, Array.getElem?_eq_none (Nat.le_of_not_lt hge)] at hc
      cases hc
    have hr : s.Reached values f := by
      by_contra hr
      exact hf ⟨hlt, hr⟩
    exact hu.2 (hr.stored hc hg)

/-- **A call touches only what it can reach.**  On a reachable machine, with any table, a call of any function with any
arguments leaves each frame as it was that cannot be got to from the global frame, the function and the arguments,
however the call ends.  So a local frame is changed only if a function that can be got to has captured it. -/
theorem call_touches_reached {m : Machine} (hm : m.Reachable) (table : Bindings) (n id : Nat) (f : Function)
    (frame : FrameId) (arguments : List Value) :
    let values := .callable (.closure id f frame) :: arguments
    let after := (invoke n (.closure id f frame) arguments { m with bindings := table }).2
    (∀ g < m.store.frames.size, ¬ m.store.Reached values g → after.store.frames[g]? = m.store.frames[g]?) ∧
      ∀ g < m.store.frames.size, g ≠ Machine.globals → after.store.frames[g]? ≠ m.store.frames[g]? →
        ∃ v e, m.store.Available values v ∧ v.frame? = some e ∧ g ∈ m.store.chain e := by
  intro values after
  have hlinked : m.store.Linked := hm.linked.allowed
  have hsame : ∀ g < m.store.frames.size, ¬ m.store.Reached values g → after.store.frames[g]? = m.store.frames[g]? := by
    intro g hg hr
    let T := Territory.sparing m.store fun g => g < m.store.frames.size ∧ ¬ m.store.Reached values g
    have hfine : ∀ v ∈ values, T.Owns m.store v := fun v hv e he hu => hu.2 (.value hv he)
    obtain ⟨hf, hv⟩ := List.forall_mem_cons.1 hfine
    have hkeeps := (T.confinesCalls n _ arguments { m with bindings := table } (hlinked.spares values) hf hv).leaves
    have hspared : m.store.Spares _ after.store := hkeeps.allowed
    exact (hspared.same g ⟨hg, hr⟩).2
  refine ⟨hsame, fun g hg hne hchanged => ?_⟩
  have hr : m.store.Reached values g := by
    by_contra hr
    exact hchanged (hsame g hg hr)
  exact hr.captured hlinked hne hg

/-! ### A call that can get to one of two blocks around it -/

/-- From the values and the frames of the list no other frame can be got to. -/
def Store.closed (s : Store) (values : List Value) (fs : List FrameId) : Bool :=
  decide (Machine.globals ∈ fs) && values.all (fun v => v.frame?.all (· ∈ fs)) &&
    fs.all fun f => (s.outer? f).all (· ∈ fs) && (s.cells f).all fun c => c.2.frame?.all (· ∈ fs)

theorem Store.Reached.mem_of_closed {s : Store} {values : List Value} {fs : List FrameId}
    (h : s.closed values fs = true) {g : FrameId} (hr : s.Reached values g) : g ∈ fs := by
  simp only [closed, Bool.and_eq_true, List.all_eq_true, Option.all_eq_true, decide_eq_true_eq] at h
  obtain ⟨⟨hg, hv⟩, hf⟩ := h
  induction hr with
  | globals => exact hg
  | value hm hf => exact hv _ hm _ hf
  | outer _ ho ih => exact (hf _ ih).1 _ ho
  | stored _ hc hs ih => exact (hf _ ih).2 _ hc _ hs

/-- The texts of the values in a frame. -/
def Store.shown (s : Store) (f : FrameId) : List String := (s.cells f).map (·.2.display)

/-- A call that can get to the frames of the list only, and changes the frame `g`. -/
def Moment.callsWithin (fs : List FrameId) (g : FrameId) (c : Moment) : Bool :=
  match c.task with
  | .call (.closure _ _ _) _ => c.machine.store.closed c.task.values fs && decide (c.machine.here ∉ fs) &&
      decide (c.machine.here < c.machine.store.frames.size) && decide (c.left.store.shown g ≠ c.machine.store.shown g)
  | _ => false

/-- The block of `a` is captured by the argument and changes; the block of `b`, in which the call stands, is not. -/
theorem call_spares_calling_block :
    ∃ (n id : Nat) (f : Function) (frame : FrameId) (arguments : List Value) (m : Machine), m.Reachable ∧
      ¬ m.store.Reached (.callable (.closure id f frame) :: arguments) m.here ∧
      (invoke n (.closure id f frame) arguments m).2.store.frames[m.here]? = m.store.frames[m.here]? ∧
      (invoke n (.closure id f frame) arguments m).2.store.shown 1 ≠ m.store.shown 1 := by
  obtain ⟨c, hc, ht⟩ := Session.exists_comesTo (s := (Session.start .unlimited fun _ => .ofNat 0).after [])
    (t := ⟨9, "fun f(g) { g(); } { var a = 1; fun step() { a = a + 1; } { var b = 5; f(step); } }"⟩) (by decide +kernel)
    [1, 0, 0, 1, 1, 0, 0, 1, 0, 0, 2] (show Option.any (Moment.callsWithin [0, 1] 1) _ = true by decide +kernel)
  have hm := (Session.Happens.reachable ⟨[], _, [], rfl, hc⟩).1
  obtain ⟨n, task, m⟩ := c
  unfold Moment.callsWithin at ht
  dsimp only at ht
  split at ht
  · next id f frame arguments =>
    simp only [Bool.and_eq_true, decide_eq_true_eq] at ht
    obtain ⟨⟨⟨hclosed, hout⟩, hlt⟩, hshown⟩ := ht
    have hr := fun hr => hout (Store.Reached.mem_of_closed hclosed hr)
    exact ⟨n, id, f, frame, arguments, m, hm, hr,
      (call_touches_reached hm m.bindings n id f frame arguments).1 m.here hlt hr, hshown⟩
  · cases ht

end Scriptlet
