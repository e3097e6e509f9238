import Mathlib
import Scriptlet.Proofs.Agreement
import Scriptlet.Proofs.Territory

/-!
# The frames stay sound

Every frame but the global one is enclosed by an older frame, so from each frame one comes, out of one enclosing frame
into the next, to the global frame (`Store.Linked`, `Store.Linked.climbs`).  All machines that runs come to have such
stores (`Machine.Reachable`), and a run, however it ends, restores the current frame and keeps what encloses each frame
and the names it holds (`environment_restored`).
-/
namespace Scriptlet

/-! ## Linked stores -/

namespace Store

/-- The frame that encloses the frame. -/
def outer? (s : Store) (f : FrameId) : Option FrameId := s.ancestor? f 1

/-- From the frame to the global one, out of one enclosing frame into the next, through the frames of the list. -/
inductive Climbs (s : Store) : FrameId → List FrameId → Prop
  | globals (h : s.outer? Machine.globals = none) : Climbs s Machine.globals [Machine.globals]
  | out {f g : FrameId} {fs : List FrameId} (h : s.outer? f = some g) (hg : Climbs s g fs) : Climbs s f (f :: fs)

/-- The global frame is enclosed by none, any other one by an older one; functions close over frames of the store. -/
structure Linked (s : Store) : Prop where
  globals : s.chain Machine.globals = [Machine.globals]
  inside : ∀ f < s.frames.size, f ≠ Machine.globals → ∃ g < f, s.chain f = f :: s.chain g
  stored : ∀ f, ∀ c ∈ s.cells f, ∀ g, c.2.frame? = some g → g < s.frames.size

variable {s : Store}

theorem chain_of_lt {f : FrameId} (h : f < s.frames.size) : ∃ fs, s.chain f = f :: fs := by
  unfold chain
  rw [Array.getElem?_eq_getElem h]
  exact ⟨_, rfl⟩

theorem self_mem_chain {f : FrameId} (h : f < s.frames.size) : f ∈ s.chain f := by
  obtain ⟨fs, hfs⟩ := chain_of_lt h
  simp [hfs]

/-- Only a frame of the store has frames around it. -/
theorem lt_of_mem_chain {f g : FrameId} (h : g ∈ s.chain f) : f < s.frames.size := by
  by_contra hf
  rw [chain, Array.getElem?_eq_none (Nat.le_of_not_lt hf)] at h
  cases h

namespace Linked

theorem lt_globals (h : s.Linked) : Machine.globals < s.frames.size := (lt_size_of_chain h.globals).1

theorem outer?_globals (h : s.Linked) : s.outer? Machine.globals = none := by
  rw [outer?, ancestor?, h.globals]
  rfl

/-- **Induction inward**: from the global frame, and from an enclosing frame to those it encloses. -/
theorem inward (h : s.Linked) {P : FrameId → Prop} (globals : P Machine.globals)
    (inside : ∀ f g, g < f → s.outer? f = some g → s.chain f = f :: s.chain g → P g → P f) :
    ∀ f < s.frames.size, P f := by
  intro f
  induction f using Nat.strongRecOn with
  | ind f ih =>
    intro hf
    by_cases hg : f = Machine.globals
    · rwa [hg]
    · obtain ⟨g, hlt, hc⟩ := h.inside f hf hg
      have hgs := Nat.lt_trans hlt hf
      obtain ⟨gs, hgc⟩ := chain_of_lt hgs
      have ho : s.outer? f = some g := by
        rw [outer?, ancestor?, hc, hgc]
        rfl
      exact inside f g hlt ho hc (ih g hlt hgs)

/-- **From every frame one comes to the global one.** -/
theorem climbs (h : s.Linked) : ∀ f < s.frames.size, s.Climbs f (s.chain f) := by
  refine h.inward ?_ fun f g _ ho hc hg => ?_
  · rw [h.globals]
    exact .globals h.outer?_globals
  · rw [hc]
    exact .out ho hg

theorem le_of_mem_chain (h : s.Linked) {f g : FrameId} (hg : g ∈ s.chain f) : g ≤ f := by
  refine h.inward (P := fun f => g ∈ s.chain f → g ≤ f) ?_ (fun f o hlt _ hc ih hg => ?_) f (lt_of_mem_chain hg) hg
  · rw [h.globals, List.mem_singleton]
    exact Nat.le_of_eq
  · rw [hc] at hg
    rcases List.mem_cons.1 hg with rfl | hg
    · exact Nat.le_refl _
    · exact Nat.le_of_lt (Nat.lt_of_le_of_lt (ih hg) hlt)

theorem define (h : s.Linked) (f : FrameId) (x : String) {v : Value} (hv : ∀ g, v.frame? = some g → g < s.frames.size) :
    (s.define f x v).Linked where
  globals := by rw [chain_define, h.globals]
  inside g hg := by
    rw [size_define] at hg
    simpa only [chain_define] using h.inside g hg
  stored g c hc o ho := by
    rw [size_define]
    rcases mem_cells_define hc with hc | hc
    · exact hv o (hc ▸ ho)
    · exact h.stored g c hc o ho

theorem add (h : s.Linked) {f : FrameId} (hf : f < s.frames.size) : (s.add (some f)).2.Linked where
  globals := by rw [chain_add s _ _ h.lt_globals, h.globals]
  inside g hg hne := by
    rw [size_add] at hg
    rcases Nat.lt_succ_iff_lt_or_eq.1 hg with hg | rfl
    · obtain ⟨o, hlt, hc⟩ := h.inside g hg hne
      exact ⟨o, hlt, by rw [chain_add s _ _ hg, chain_add s _ _ (Nat.lt_trans hlt hg), hc]⟩
    · refine ⟨f, hf, ?_⟩
      rw [chain_add s _ _ hf]
      exact s.chain_add_self (some f)
  stored g c hc o ho := by
    rw [size_add]
    exact Nat.lt_succ_of_lt (h.stored g c (mem_cells_add hc) o ho)

end Linked
end Store

/-- The frames of a linked store. -/
def Territory.linked : Territory where
  Allows := Store.Linked
  Has s f := f < s.frames.size
  globals h := h.lt_globals
  around h hf hg := Nat.lt_of_le_of_lt (h.le_of_mem_chain hg) hf
  stored h _ hc hg := h.stored _ _ hc _ hg
  later hf hl := Nat.lt_of_lt_of_le hf hl.size
  define x h _ hv := h.define _ x hv
  add h hf := ⟨h.add hf, by rw [Store.size_add]; exact Nat.lt_succ_self _⟩

/-! ## Reachable machines -/

/-- The functions that are called and the values they are given close over frames of the store. -/
def Moment.Known (c : Moment) : Prop :=
  ∀ v ∈ c.task.values, ∀ f, v.frame? = some f → f < c.machine.store.frames.size

/-- The machine is one that runs come to: a new one, one with another table, one that a run of anything has left, or one
that a run is at on its way. -/
inductive Machine.Reachable : Machine → Prop
  | start (sink : Sink) (clock : Nat → Number) : Reachable (.start sink clock)
  | load {m : Machine} (h : Reachable m) (table : Bindings) : Reachable { m with bindings := table }
  | left {c : Moment} (h : Reachable c.machine) (hk : c.Known) : Reachable c.left
  | enters {c c' : Moment} (h : Reachable c.machine) (hk : c.Known) (he : Enters c c') : Reachable c'.machine

theorem Machine.linked_start (sink : Sink) (clock : Nat → Number) : Territory.linked.At (Machine.start sink clock) := by
  have hbare : (Store.empty.add none).2.Linked := by
    refine ⟨rfl, fun f hf hg => ?_, fun f c hc => by cases Store.mem_cells_add hc⟩
    rw [Store.size_add] at hf
    exact absurd (Nat.lt_one_iff.1 hf) hg
  have hs := hbare.define globals "clock" (v := .callable (.native 0 ⟨.clock, 0⟩)) (fun g hg => by cases hg)
  exact ⟨hs, hs.lt_globals⟩

theorem Machine.Reachable.linked {m : Machine} (h : m.Reachable) : Territory.linked.At m := by
  induction h with
  | start sink clock => exact linked_start sink clock
  | load _ _ ih => exact ⟨ih.allowed, ih.here⟩
  | left _ hk ih => exact ih.of_leaves (Territory.left ⟨ih, hk⟩)
  | enters _ hk he ih => exact (Territory.enters ⟨ih, hk⟩ he).machine

/-- The moments of a run that starts on a reachable machine are on reachable ones. -/
theorem Machine.Reachable.reaches {c c' : Moment} (h : c.machine.Reachable) (hk : c.Known) (hr : Reaches c c') :
    c'.machine.Reachable ∧ c'.Known := by
  induction hr with
  | refl => exact ⟨h, hk⟩
  | tail _ he ih => exact ⟨ih.1.enters ih.2 he, (Territory.enters (T := .linked) ⟨ih.1.linked, ih.2⟩ he).values⟩

namespace Session

theorem known_starting (s : Session) (bound : Nat) (a : Analysis) : (s.starting bound a).Known :=
  fun v hv => by cases hv

theorem run_reachable {s : Session} (h : s.machine.Reachable) (t : Text) :
    (s.run t.bound t.source).2.machine.Reachable := by
  by_cases ha : s.Accepts t.source
  · rw [run_accepted ha]
    generalize analyze s.fresh t.source = a
    rw [ended, interpret_snd]
    exact .left (c := s.starting t.bound a) (h.load _) (s.known_starting t.bound a)
  · rw [run_rejected ha]
    exact h

theorem after_reachable (sink : Sink) (clock : Nat → Number) (texts : List Text) :
    ((start sink clock).after texts).machine.Reachable := by
  induction texts using List.reverseRecOn with
  | nil => exact .start sink clock
  | append_singleton texts t ih =>
    rw [after_snoc]
    exact run_reachable ih t

/-- The moments of a session are on reachable machines. -/
theorem Happens.reachable {sink : Sink} {clock : Nat → Number} {texts : List Text} {c : Moment}
    (h : (start sink clock).Happens texts c) : c.machine.Reachable ∧ c.Known := by
  obtain ⟨earlier, t, later, -, -, hr⟩ := h
  refine Machine.Reachable.reaches ?_ (known_starting _ _ _) hr
  exact (after_reachable sink clock earlier).load _

end Session

/-- **The current frame is restored and the frames stay sound.**  On a reachable machine, whatever is run (an
expression, a statement, a list of them, a loop, a call of a function of this store) and however it ends: the current
frame is the one it was; every frame is still there, with the frame that enclosed it and the names it held; and from
every frame one comes, out of one enclosing frame into the next, to the global one.  All moments of all sessions are
such runs, and after every text of a session, whatever its outcome, the current frame is the global one. -/
theorem environment_restored :
    (∀ c : Moment, c.machine.Reachable → c.Known →
      c.left.here = c.machine.here ∧
        (∀ f < c.machine.store.frames.size, f < c.left.store.frames.size ∧
          c.left.store.outer? f = c.machine.store.outer? f ∧
          ∀ x, c.machine.store.holds x f = true → c.left.store.holds x f = true) ∧
        ∀ f < c.left.store.frames.size, c.left.store.Climbs f (c.left.store.chain f)) ∧
      ∀ (sink : Sink) (clock : Nat → Number) (texts : List Text),
        (∀ c, (Session.start sink clock).Happens texts c → c.machine.Reachable ∧ c.Known) ∧
          ((Session.start sink clock).after texts).machine.Reachable ∧
          ((Session.start sink clock).after texts).machine.here = Machine.globals := by
  refine ⟨fun c hc hk => ?_, fun sink clock texts => ⟨fun c => Session.Happens.reachable,
    Session.after_reachable sink clock texts, (Session.session_sound sink clock texts).here⟩⟩
  have hkeeps := Territory.left (T := .linked) ⟨hc.linked, hk⟩
  have hlater := hkeeps.later
  have hlinked : c.left.store.Linked := hkeeps.allowed
  refine ⟨hkeeps.here, fun f hf => ⟨Nat.lt_of_lt_of_le hf hlater.size, ?_, hlater.grows f hf⟩, hlinked.climbs⟩
  rw [Store.outer?, Store.outer?, Store.ancestor?, Store.ancestor?, hlater.chain f hf]

-- A fault in a block in a call in a block.
example :
    let ended := (Session.start .unlimited fun _ => .ofNat 0).run 5 "fun f(x) { { var y = x; print z; } } { f(2); }"
    ended.1.exitCode = 70 ∧ ended.2.machine.store.frames.size = 4 ∧ ended.2.machine.here = Machine.globals := by
  decide +kernel

end Scriptlet
