import Mathlib
import Scriptlet.Proofs.Enclosure

/-!
# What becomes of the frames of a part

A run goes on when a run that it started has ended.  Whatever it does then, it adds names to its own current frame only
(`Enters.later_left`).  That frame is older than those of the part, so these keep just the names that they have when
the part has ended, to the end of the session (`Session.Happens.names_kept`).
-/
namespace Scriptlet

/-! ## Runs from any machine -/

namespace Run

variable {α β : Type} {r : Run α} {f : α → Run β} {m m' : Machine}

/-- However it ends, the run restores the current frame and adds names to that frame only. -/
def Tame (r : Run α) : Prop := ∀ m, Territory.all.Leaves true m (r m).2

theorem Tame.here (h : Tame r) {signal : Signal α} (hr : r m = (signal, m')) : m'.here = m.here := by
  have := (h m).here
  rwa [hr] at this

theorem Tame.later (h : Tame r) (m : Machine) : m.store.Later (some m.here) (r m).2.store := (h m).later

theorem tame_of_stays {b : Bool} {P : α → Store → Prop} (h : ∀ m, Territory.all.Stays b P r m) : Tame r := fun m =>
  (h m).leaves.mono fun _ => rfl

/-- What comes after a part of a sequence. -/
theorem Tame.later_bind (hr : Tame r) (hf : ∀ a, Tame (f a)) (m : Machine) :
    (r m).2.store.Later (some m.here) ((r >>= f) m).2.store := by
  rcases h : r m with ⟨a | v | e | _, m'⟩
  · rw [bind_of_value h, ← hr.here h]
    exact (hf a).later m'
  all_goals
    rw [bind_def, h]
    exact .refl _ _

/-- What comes after a part of the second part. -/
theorem Tame.later_second (hr : Tame r) {a : α} (h : r m = (.value a, m')) {s : Store}
    (hs : s.Later (some m'.here) (f a m').2.store) : s.Later (some m.here) ((r >>= f) m).2.store := by
  rw [bind_of_value h, ← hr.here h]
  exact hs

theorem Tame.bind (hr : Tame r) (hf : ∀ a, Tame (f a)) : Tame (r >>= f) := fun m => by
  refine ⟨trivial, ?_, (hr.later m).trans (hr.later_bind hf m)⟩
  rcases h : r m with ⟨a | v | e | _, m'⟩
  · rw [bind_of_value h, (hf a m').here, hr.here h]
  all_goals
    rw [bind_def, h]
    exact hr.here h

theorem tame_pure (a : α) : Tame (pure a : Run α) := fun _ => .refl trivial

theorem tame_leave (v : Value) : Tame (leave v : Run α) := fun _ => .refl trivial

theorem tame_neutral {r : Run Value} (h : Neutral r) : Tame r :=
  tame_of_stays (b := false) fun _ => Territory.stays_neutral h trivial

theorem tame_assign (id : Nat) (name : Token) (v : Value) : Tame (assign id name v) :=
  tame_of_stays fun _ => Territory.stays_assign ⟨trivial, trivial⟩ id name fun _ _ => trivial

theorem tame_print (text : String) : Tame (print text) :=
  tame_of_stays (b := false) fun _ => Territory.stays_print trivial text

theorem tame_define (x : String) (v : Value) : Tame (define x v) :=
  tame_of_stays fun _ => Territory.stays_define ⟨trivial, trivial⟩ x fun _ _ => trivial

theorem tame_choose {c : Bool} {r' : Run α} (h : Tame r) (h' : Tame r') : Tame (if c = true then r else r') := by
  split
  · exact h
  · exact h'

end Run

open Run

section

variable (n : Nat)

theorem tame_eval (e : Expr) : Tame (e.eval (invoke n)) :=
  tame_of_stays fun _ => (Territory.all.confinesCalls n).eval e ⟨trivial, trivial⟩

theorem tame_evalAll (es : List Expr) : Tame (Expr.evalAll (invoke n) es) :=
  tame_of_stays fun _ => (Territory.all.confinesCalls n).evalAll es ⟨trivial, trivial⟩

theorem tame_exec (s : Stmt) : Tame (s.exec (invoke n) n) :=
  tame_of_stays fun m => (Territory.all.confinesCalls n).exec n s m ⟨trivial, trivial⟩

theorem tame_execAll (ss : List Stmt) : Tame (Stmt.execAll (invoke n) n ss) :=
  tame_of_stays fun _ => (Territory.all.confinesCalls n).execAll n ss ⟨trivial, trivial⟩

theorem tame_loop (e : Expr) (s : Stmt) (k : Nat) : Tame (loop (e.eval (invoke n)) (s.exec (invoke n) n) k) :=
  tame_of_stays fun _ => (Territory.all.confinesCalls n).loop n e ((Territory.all.confinesCalls n).exec n s) k
    ⟨trivial, trivial⟩

theorem tame_applyCall (t : Token) (v : Value) (vs : List Value) : Tame (applyCall (invoke n) t v vs) := by
  unfold applyCall
  split
  · next f =>
    split
    · exact tame_of_stays fun m => Territory.all.confinesCalls n f vs m trivial (fun _ _ => trivial)
        fun _ _ _ _ => trivial
    · exact fun _ => .refl trivial
  · exact fun _ => .refl trivial

theorem tame_otherwise (o : Option Stmt) : Tame (otherwise (invoke n) n o) := by
  cases o with
  | none => exact tame_pure ()
  | some s => exact tame_exec n s

end

/-! ## After a part -/

/-- **After a run that it started, a run adds names to its own current frame only.** -/
theorem Enters.later_left {c c' : Moment} (h : Enters c c') :
    c'.left.store.Later (some c.machine.here) c.left.store := by
  cases h with
  | @assign n m id name e =>
    exact (tame_eval n e).later_bind (fun v => (tame_assign id name v).bind fun _ => tame_pure v) m
  | group => exact .refl _ _
  | @unary n m t e => exact (tame_eval n e).later_bind (fun v => tame_neutral (neutral_applyUnary t v)) m
  | @left n m l t r =>
    exact (tame_eval n l).later_bind
      (fun v => (tame_eval n r).bind fun w => tame_neutral (neutral_applyBinary t v w)) m
  | @right n m l t r v m' hl =>
    exact (tame_eval n l).later_second hl
      ((tame_eval n r).later_bind (fun w => tame_neutral (neutral_applyBinary t v w)) m')
  | @logicalLeft n m l t r =>
    exact (tame_eval n l).later_bind (fun v => tame_choose (tame_pure v) (tame_eval n r)) m
  | @logicalRight n m l t r v m' hl hs =>
    refine (tame_eval n l).later_second hl ?_
    rw [if_neg (by simp [hs])]
    exact .refl _ _
  | @callee n m e t es =>
    exact (tame_eval n e).later_bind (fun v => (tame_evalAll n es).bind fun vs => tame_applyCall n t v vs) m
  | @arguments n m e t es v m' he =>
    exact (tame_eval n e).later_second he ((tame_evalAll n es).later_bind (fun vs => tame_applyCall n t v vs) m')
  | @apply n m e t es f vs m₁ m₂ he hes ha =>
    refine (tame_eval n e).later_second he ((tame_evalAll n es).later_second hes ?_)
    rw [applyCall, if_pos ha]
    exact .refl _ _
  | @first n m e es =>
    exact (tame_eval n e).later_bind (fun v => (tame_evalAll n es).bind fun vs => tame_pure (v :: vs)) m
  | @others n m e es v m' he =>
    exact (tame_eval n e).later_second he ((tame_evalAll n es).later_bind (fun vs => tame_pure (v :: vs)) m')
  | block => exact .refl _ _
  | @expression n m e => exact (tame_eval n e).later_bind (fun _ => tame_pure ()) m
  | @test n m e yes no =>
    change Store.Later _ _ ((Stmt.conditional e yes no).exec (invoke n) n m).2.store
    rw [exec_conditional]
    exact (tame_eval n e).later_bind (fun v => tame_choose (tame_exec n yes) (tame_otherwise n no)) m
  | @yes n m e yes no v m' he hv =>
    change Store.Later _ _ ((Stmt.conditional e yes no).exec (invoke n) n m).2.store
    rw [exec_conditional]
    refine (tame_eval n e).later_second he ?_
    rw [if_pos hv]
    exact .refl _ _
  | @no n m e yes no v m' he hv =>
    change Store.Later _ _ ((Stmt.conditional e yes (some no)).exec (invoke n) n m).2.store
    rw [exec_conditional]
    refine (tame_eval n e).later_second he ?_
    rw [if_neg (by simp [hv])]
    exact .refl _ _
  | @print n m e => exact (tame_eval n e).later_bind (fun v => tame_print v.display) m
  | @«return» n m t e => exact (tame_eval n e).later_bind (fun v => tame_leave v) m
  | @initializer n m t e => exact (tame_eval n e).later_bind (fun v => tame_define t.lexeme v) m
  | «while» => exact .refl _ _
  | @loopTest n m e s k =>
    change Store.Later _ _ (loop (e.eval (invoke n)) (s.exec (invoke n) n) (k + 1) m).2.store
    rw [loop_succ]
    exact (tame_eval n e).later_bind
      (fun v => tame_choose ((tame_exec n s).bind fun _ => tame_loop n e s k) (tame_pure ())) m
  | @loopBody n m e s k v m' he hv =>
    change Store.Later _ _ (loop (e.eval (invoke n)) (s.exec (invoke n) n) (k + 1) m).2.store
    rw [loop_succ]
    refine (tame_eval n e).later_second he ?_
    rw [if_pos hv]
    exact (tame_exec n s).later_bind (fun _ => tame_loop n e s k) m'
  | @loopAgain n m e s k v m₁ m₂ he hv hs =>
    change Store.Later _ _ (loop (e.eval (invoke n)) (s.exec (invoke n) n) (k + 1) m).2.store
    rw [loop_succ]
    refine (tame_eval n e).later_second he ?_
    rw [if_pos hv]
    exact (tame_exec n s).later_second hs (.refl _ _)
  | @head n m s ss => exact (tame_exec n s).later_bind (fun _ => tame_execAll n ss) m
  | @tail n m s ss m' hs => exact (tame_exec n s).later_second hs (.refl _ _)
  | @body n m id f frame vs =>
    have hleft : (invoke (n + 1) (.closure id f frame) vs m).2.store =
        (Stmt.execAll (invoke n) n f.body (m.called f frame vs)).2.store := by
      rw [History.invoke_closure]
      unfold Run.result
      rcases Stmt.execAll (invoke n) n f.body (m.called f frame vs) with ⟨_ | _ | _ | _, m'⟩ <;> rfl
    change Store.Later _ _ (invoke (n + 1) (.closure id f frame) vs m).2.store
    rw [hleft]
    exact .refl _ _

/-- Stores with so many frames. -/
def Territory.atLeast (n : Nat) : Territory where
  Allows s := n ≤ s.frames.size
  Has _ _ := True
  globals _ := trivial
  around _ _ _ := trivial
  stored _ _ _ _ := trivial
  later _ _ := trivial
  define _ h _ _ := by rwa [Store.size_define]
  add h _ := ⟨by rw [Store.size_add]; exact Nat.le_succ_of_le h, trivial⟩

namespace Reaches

variable {c c' : Moment}

theorem size_le (h : Reaches c c') : c.machine.store.frames.size ≤ c'.machine.store.frames.size :=
  (Territory.reaches (T := .atLeast c.machine.store.frames.size) ⟨⟨Nat.le_refl _, trivial⟩, fun _ _ _ _ => trivial⟩
    h).machine.allowed

/-- Names stay until the run has ended. -/
theorem holds_left (h : Reaches c c') {f : FrameId} {x : String} (hx : c'.left.store.holds x f = true) :
    c.left.store.holds x f = true := by
  induction h using Relation.ReflTransGen.head_induction_on with
  | refl => exact hx
  | head he _ ih => exact he.later_left.grows f (Store.lt_of_holds ih) x ih

/-- **A frame that a part has made has the same names when the run has ended as when the part had.** -/
theorem names_left (h : Reaches c c') (hc : Territory.linked.Starts c) {f : FrameId}
    (hf : c'.machine.store.frames.size ≤ f) (hlt : f < c'.left.store.frames.size) :
    f < c.left.store.frames.size ∧ ∀ x, c.left.store.holds x f = c'.left.store.holds x f := by
  induction h using Relation.ReflTransGen.head_induction_on with
  | refl => exact ⟨hlt, fun _ => rfl⟩
  | @head c d he hr ih =>
    obtain ⟨hd, ih⟩ := ih (Territory.enters hc he)
    have hlater := he.later_left
    -- the frame that the run is in is older
    have hhere : c.machine.here < f :=
      calc c.machine.here < c.machine.store.frames.size := hc.machine.here
        _ ≤ c'.machine.store.frames.size := size_le (.head he hr)
        _ ≤ f := hf
    refine ⟨Nat.lt_of_lt_of_le hd hlater.size, fun x => ?_⟩
    rw [hlater.names f hd (by simpa using Nat.ne_of_lt hhere), ih x]

end Reaches

/-! ## Sessions -/

namespace Session

variable {sink : Sink} {clock : Nat → Number}

/-- Texts that follow add names to the global frame only. -/
theorem later_after (earlier later : List Text) : ((start sink clock).after earlier).machine.store.Later
    (some Machine.globals) ((start sink clock).after (earlier ++ later)).machine.store := by
  induction later using List.reverseRecOn with
  | nil =>
    rw [List.append_nil]
    exact .refl _ _
  | append_singleton later t ih =>
    refine ih.trans ?_
    have hhere := (session_sound sink clock (earlier ++ later)).here
    rw [← List.append_assoc, after_snoc]
    generalize (start sink clock).after (earlier ++ later) = s at hhere
    by_cases ha : s.Accepts t.source
    · rw [run_accepted ha]
      generalize analyze s.fresh t.source = a
      rw [ended, interpret_snd, ← hhere]
      exact (tame_execAll t.bound a.statements).later (s.starting t.bound a).machine
    · rw [run_rejected ha]
      exact .refl _ _

/-- What a text that is accepted leaves. -/
theorem after_accepted {s : Session} {t : Text} (h : s.Accepts t.source) :
    (s.run t.bound t.source).2.machine = (s.beginning t).left := by
  rw [run_accepted h, beginning]
  generalize analyze s.fresh t.source = a
  exact interpret_snd _ _ _

namespace Happens

variable {texts : List Text} {c : Moment}

/-- A name that a frame has at a moment stays to the end. -/
theorem holds_kept (h : (start sink clock).Happens texts c) {f : FrameId} {x : String}
    (hx : c.machine.store.holds x f = true) : ((start sink clock).after texts).machine.store.holds x f = true := by
  obtain ⟨earlier, t, later, rfl, ha, hr⟩ := h
  have hleft : c.left.store.holds x f = true :=
    (Territory.left (T := .all) ⟨⟨trivial, trivial⟩, fun _ _ _ _ => trivial⟩).later.grows f (Store.lt_of_holds hx) x hx
  have hran := hr.holds_left hleft
  rw [← after_accepted ha, ← after_snoc] at hran
  rw [List.append_cons]
  exact (later_after _ later).grows f (Store.lt_of_holds hran) x hran

/-- **A frame that is made in a run has the same names when the run has ended and at the end of the session.** -/
theorem names_kept (h : (start sink clock).Happens texts c) {f : FrameId} (hf : c.machine.store.frames.size ≤ f)
    (hlt : f < c.left.store.frames.size) (x : String) :
    ((start sink clock).after texts).machine.store.holds x f = c.left.store.holds x f := by
  obtain ⟨earlier, t, later, rfl, ha, hr⟩ := h
  have hstart : Territory.linked.Starts (((start sink clock).after earlier).beginning t) :=
    ⟨((after_reachable sink clock earlier).load _).linked, known_starting _ _ _⟩
  obtain ⟨hran, hnames⟩ := hr.names_left hstart hf hlt
  have hglobals : Machine.globals < f :=
    calc Machine.globals < _ := hstart.machine.allowed.lt_globals
      _ ≤ c.machine.store.frames.size := hr.size_le
      _ ≤ f := hf
  rw [← hnames x]
  rw [← after_accepted ha, ← after_snoc] at hran ⊢
  rw [List.append_cons]
  exact (later_after _ later).names f hran (by simpa using Nat.ne_of_lt hglobals) x

end Happens
end Session

end Scriptlet
