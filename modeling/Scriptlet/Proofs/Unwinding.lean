import Mathlib
import Scriptlet.Proofs.Continuation

/-!
# A `return` and its call

At any moment of a run some runs are under way, each started by the one before it (`Trail`).  A run that ends in a
`return` hands it on to the run that has started it, unless that is a call (`Enters.returns`).  So a `return` goes up
through statements, blocks and loops and ends the innermost call that is under way; outside every call it would end the
text, and an accepted text does not come to that.
-/
namespace Scriptlet

/-! ## Runs under way -/

/-- The runs that are under way where the first run comes to the last one: outermost first, without the last. -/
inductive Trail : Moment → List Moment → Moment → Prop
  | here (c : Moment) : Trail c [] c
  | into {c d e : Moment} {runs : List Moment} (h : Enters c d) (ht : Trail d runs e) : Trail c (c :: runs) e

theorem Moment.exists_trail_of_follow : ∀ {path : List Nat} {c c' : Moment}, c.follow path = some c' →
    ∃ runs, Trail c runs c'
  | [], c, c', h => ⟨[], Option.some.inj h ▸ .here c⟩
  | i :: path, c, c', h => by
    obtain ⟨d, hd, h⟩ := Option.bind_eq_some_iff.1 h
    obtain ⟨runs, ht⟩ := exists_trail_of_follow h
    exact ⟨c :: runs, .into (enters_of_mem_entered (List.mem_of_getElem? hd)) ht⟩

/-- Statements and loops; neither expressions nor calls. -/
def Task.isStatement : Task → Bool
  | .exec _ | .execAll _ | .loop _ _ _ => true
  | .eval _ | .evalAll _ | .call _ _ => false

/-- The run ends in a `return` of the value and leaves the machine. -/
def Moment.Returns (c : Moment) (v : Value) (m : Machine) : Prop :=
  match c.task with
  | .eval e => e.eval (invoke c.bound) c.machine = (.returned v, m)
  | .evalAll es => Expr.evalAll (invoke c.bound) es c.machine = (.returned v, m)
  | .exec s => s.exec (invoke c.bound) c.bound c.machine = (.returned v, m)
  | .execAll ss => Stmt.execAll (invoke c.bound) c.bound ss c.machine = (.returned v, m)
  | .loop e s k => loop (e.eval (invoke c.bound)) (s.exec (invoke c.bound) c.bound) k c.machine = (.returned v, m)
  | .call f vs => invoke c.bound f vs c.machine = (.returned v, m)

/-- The run is a call of a declared function that has the value and leaves the machine. -/
def Moment.Answers (c : Moment) (v : Value) (m : Machine) : Prop :=
  ∃ id f frame vs, c.task = .call (.closure id f frame) vs ∧
    invoke c.bound (.closure id f frame) vs c.machine = (.value v, m)

/-- Only a statement or a loop ends in a `return`. -/
theorem Moment.Returns.isStatement {c : Moment} {v : Value} {m : Machine} (h : c.Returns v m) :
    c.task.isStatement = true := by
  obtain ⟨n, task, m₀⟩ := c
  have hi := contained_invoke n
  cases task with
  | eval e => exact absurd (congrArg Prod.fst h) (contained_eval hi e m₀ v)
  | evalAll es => exact absurd (congrArg Prod.fst h) (contained_evalAll hi es m₀ v)
  | call f vs => exact absurd (congrArg Prod.fst h) (hi f vs m₀ v)
  | exec _ => rfl
  | execAll _ => rfl
  | loop _ _ _ => rfl

/-! ## One step up -/

section

variable {n : Nat} {m m₁ m' : Machine} {v w : Value}

theorem Run.bind_of_returned {α β : Type} {r : Run α} (k : α → Run β) (h : r m = (.returned v, m')) :
    (r >>= k) m = (.returned v, m') := by
  rw [Run.bind_def, h]

theorem exec_conditional_yes {e : Expr} {yes : Stmt} (no : Option Stmt) (he : e.eval (invoke n) m = (.value w, m₁))
    (hw : w.truthy = true) :
    (Stmt.conditional e yes no).exec (invoke n) n m = yes.exec (invoke n) n m₁ := by
  rw [exec_conditional, Run.bind_of_value he, if_pos hw]

theorem exec_conditional_no {e : Expr} {yes no : Stmt} (he : e.eval (invoke n) m = (.value w, m₁))
    (hw : w.truthy = false) :
    (Stmt.conditional e yes (some no)).exec (invoke n) n m = no.exec (invoke n) n m₁ := by
  rw [exec_conditional, Run.bind_of_value he, if_neg (by simp [hw])]
  rfl

/-- A loop whose test holds goes on with its body. -/
theorem loop_of_truthy {test : Run Value} (body : Run Unit) (k : Nat) (he : test m = (.value w, m₁))
    (hw : w.truthy = true) : loop test body (k + 1) m = (body >>= fun _ => loop test body k) m₁ := by
  rw [loop_succ, Run.bind_of_value he, if_pos hw]

/-- A `return` from the body of a function is the value of the call. -/
theorem invoke_of_returned {id : Nat} {f : Function} {frame : FrameId} {vs : List Value}
    (h : Stmt.execAll (invoke n) n f.body (m.called f frame vs) = (.returned v, m')) :
    invoke (n + 1) (.closure id f frame) vs m = (.value v, { m' with here := m.here }) := by
  rw [History.invoke_closure, h]
  rfl

end

/-- **A `return` is handed on to the run that has started this one**, or it is the value of that run, a call.  The
machine stays as it is, but for the current frame, which a block and a call restore. -/
theorem Enters.returns {c c' : Moment} (h : Enters c c') {v : Value} {m : Machine} (hr : c'.Returns v m) :
    (∃ here, c.Returns v { m with here }) ∨ c.Answers v { m with here := c.machine.here } := by
  have hs := hr.isStatement
  cases h with
  | block => exact .inl ⟨_, (History.exec_block _ _ _ _).trans (by rw [hr])⟩
  | yes he hv => exact .inl ⟨m.here, (exec_conditional_yes _ he hv).trans hr⟩
  | no he hv => exact .inl ⟨m.here, (exec_conditional_no he hv).trans hr⟩
  | «while» => exact .inl ⟨m.here, hr⟩
  | loopBody he hv =>
    exact .inl ⟨m.here, (loop_of_truthy _ _ he hv).trans (Run.bind_of_returned _ hr)⟩
  | loopAgain he hv hb =>
    exact .inl ⟨m.here, (loop_of_truthy _ _ he hv).trans ((Run.bind_of_value hb).trans hr)⟩
  | head => exact .inl ⟨m.here, Run.bind_of_returned _ hr⟩
  | tail ht => exact .inl ⟨m.here, (Run.bind_of_value ht).trans hr⟩
  | body => exact .inr ⟨_, _, _, _, rfl, invoke_of_returned hr⟩
  | _ => cases hs

/-! ## All the way up -/

/-- The `return` of the value goes up through statements and loops only, and ends the innermost call of the runs, which
has the value and restores the frame that was the current one. -/
def EndsInnermostCall (runs : List Moment) (v : Value) (m : Machine) : Prop :=
  ∃ outer call inner, runs = outer ++ call :: inner ∧ call.Answers v { m with here := call.machine.here } ∧
    ∀ d ∈ inner, d.task.isStatement = true ∧ ∃ here, d.Returns v { m with here }

/-- **Where a `return` comes to**: the innermost call under way, or the run that was started first. -/
theorem Trail.returns {c₀ c : Moment} {runs : List Moment} (h : Trail c₀ runs c) {v : Value} {m : Machine}
    (hr : c.Returns v m) : EndsInnermostCall runs v m ∨
      (∀ d ∈ runs, d.task.isStatement = true ∧ ∃ here, d.Returns v { m with here }) ∧
        ∃ here, c₀.Returns v { m with here } := by
  induction h with
  | here c => exact .inr ⟨by simp, m.here, hr⟩
  | @into c d e runs he _ ih =>
    rcases ih hr with ⟨outer, call, inner, rfl, ha, hi⟩ | ⟨hall, here, hd⟩
    · exact .inl ⟨c :: outer, call, inner, rfl, ha, hi⟩
    · rcases he.returns hd with ⟨here', hc⟩ | ha
      · refine .inr ⟨fun d' hd' => ?_, here', hc⟩
        rcases List.mem_cons.1 hd' with rfl | hd'
        · exact ⟨hc.isStatement, here', hc⟩
        · exact hall d' hd'
      · exact .inl ⟨[], c, runs, rfl, ha, hall⟩

/-! ## Texts -/

/-- Each of the statements has run to its end, on what the ones before it have left. -/
inductive RunInOrder (n : Nat) : List Stmt → Machine → Machine → Prop
  | nil (m : Machine) : RunInOrder n [] m m
  | cons {s : Stmt} {ss : List Stmt} {m m' m'' : Machine} (h : s.exec (invoke n) n m = (.value (), m'))
      (hs : RunInOrder n ss m' m'') : RunInOrder n (s :: ss) m m''

theorem runInOrder_iff {n : Nat} {m' : Machine} : ∀ {ss : List Stmt} {m : Machine},
    RunInOrder n ss m m' ↔ Stmt.execAll (invoke n) n ss m = (.value (), m')
  | [], m => by
    refine ⟨fun h => ?_, fun h => ?_⟩
    · cases h
      rfl
    · cases h
      exact .nil _
  | s :: ss, m => by
    rw [exec_cons, Run.bind_def]
    refine ⟨fun h => ?_, fun h => ?_⟩
    · cases h with
      | cons hs hss =>
        rw [hs]
        exact runInOrder_iff.1 hss
    · rcases hs : s.exec (invoke n) n m with ⟨_ | _ | _ | _, m₁⟩ <;> rw [hs] at h
      · exact .cons hs (runInOrder_iff.2 h)
      all_goals cases h

theorem contained_of_mem {k : Nat} {source : String} (h : (analyze k source).faults = []) (n : Nat) {s : Stmt}
    (hs : s ∈ (analyze k source).statements) : Run.Contained (s.exec (invoke n) n) := by
  obtain ⟨-, -, hr⟩ := analyze_faults_eq_nil_iff.1 h
  have hs : s ∈ (parse k (tokensOf (scan source))).statements := hs
  generalize (parse k (tokensOf (scan source))).statements = ss at hr hs
  unfold resolve at hr
  generalize ([] : List Scope) = scopes at hr
  induction ss generalizing scopes with
  | nil => cases hs
  | cons t ts ih =>
    rw [Stmt.findingsAll, Findings.faults_append] at hr
    rcases List.mem_cons.1 hs with rfl | hs
    · exact contained_exec (contained_invoke n) n s hr.1
    · exact ih hs _ hr.2

namespace Session

/-- A run completes exactly when its statements run to their end in order and the sink flushes, unless they end in a
`return`. -/
theorem completed_iff {n : Nat} {ss : List Stmt} {m : Machine} (hc : Run.Contained (Stmt.execAll (invoke n) n ss)) :
    (interpret n ss m).1 = .completed ↔
      RunInOrder n ss m (interpret n ss m).2 ∧ (interpret n ss m).2.sink.flushable = true := by
  rw [interpret_snd, runInOrder_iff]
  unfold interpret Sink.flush
  rcases hr : Stmt.execAll (invoke n) n ss m with ⟨signal, m'⟩
  have hv : ∀ v, signal ≠ .returned v := fun v h => hc m v (by rw [hr, h])
  cases hf : m'.sink.flushable <;> cases signal <;> simp_all [Signal.outcome]

/-- **In an accepted text a `return` ends a call.**  On whatever earlier texts have left: no statement of the text
itself ends in a `return`; its run completes exactly when all of them have run to their end in order and the sink
flushes; and a `return` that comes up anywhere in its run is the value of the innermost call under way. -/
theorem accepted_returns_end_calls (sink : Sink) (clock : Nat → Number) (texts : List Text) (t : Text)
    (ha : ((start sink clock).after texts).Accepts t.source) :
    let s := (start sink clock).after texts
    (∀ st ∈ (analyze s.fresh t.source).statements, ∀ m v, (st.exec (invoke t.bound) t.bound m).1 ≠ .returned v) ∧
      ((s.run t.bound t.source).1 = .completed ↔
        RunInOrder t.bound (analyze s.fresh t.source).statements (s.beginning t).machine
          (s.run t.bound t.source).2.machine ∧ sink.flushable = true) ∧
      ∀ runs c v m, Trail (s.beginning t) runs c → c.Returns v m → EndsInnermostCall runs v m := by
  have hflush := (session_sound sink clock (texts ++ [t])).flushable
  rw [after_snoc] at hflush
  generalize (start sink clock).after texts = s at ha hflush
  have hcontained := contained_accepted ha t.bound
  have hmem : ∀ st ∈ (analyze s.fresh t.source).statements, _ := fun st => contained_of_mem ha t.bound
  rw [run_accepted ha] at hflush
  dsimp only
  rw [run_accepted ha]
  unfold beginning
  generalize analyze s.fresh t.source = a at *
  refine ⟨hmem, ?_, fun runs c v m ht hr => ?_⟩
  · rw [← show (s.ended t.bound a).2.machine.sink.flushable = sink.flushable from hflush]
    exact completed_iff hcontained
  · rcases ht.returns hr with h | ⟨-, here, h⟩
    · exact h
    · exact absurd (congrArg Prod.fst h) (hcontained _ v)

/-- Whether a `return` statement comes up at the moment. -/
def returnsAt (c : Moment) : Bool :=
  match c.task with
  | .exec (.return t e) =>
    match (Stmt.return t e).exec (invoke c.bound) c.bound c.machine with
    | (.returned _, _) => true
    | _ => false
  | _ => false

theorem exists_of_returnsAt {c : Moment} (h : returnsAt c = true) : ∃ v m, c.Returns v m := by
  obtain ⟨n, task, m⟩ := c
  unfold returnsAt at h
  dsimp only at h
  split at h
  · split at h
    · next hr => exact ⟨_, _, hr⟩
    · cases h
  · cases h

/-- From a block in a loop of a function that an earlier text has declared. -/
theorem return_in_loop_ends_call :
    let s := (start .unlimited fun _ => .ofNat 0).after [⟨9, "fun f(n) { while (true) { if (n > 0) return n; } }"⟩]
    ∃ runs c v m, s.Accepts "{ print f(1); }" ∧ Trail (s.beginning ⟨9, "{ print f(1); }"⟩) runs c ∧ c.Returns v m ∧
      EndsInnermostCall runs v m := by
  have ha : ((start .unlimited fun _ => .ofNat 0).after
      [⟨9, "fun f(n) { while (true) { if (n > 0) return n; } }"⟩]).Accepts "{ print f(1); }" := by decide +kernel
  have hfollow : Option.any returnsAt ((((start .unlimited fun _ => .ofNat 0).after
      [⟨9, "fun f(n) { while (true) { if (n > 0) return n; } }"⟩]).beginning ⟨9, "{ print f(1); }"⟩).follow
        [0, 0, 0, 0, 2, 0, 0, 0, 1, 0, 0, 1]) = true := by decide +kernel
  obtain ⟨c, hc, ht⟩ := (Option.any_eq_true _ _).1 hfollow
  obtain ⟨runs, htrail⟩ := Moment.exists_trail_of_follow hc
  obtain ⟨v, m, hr⟩ := exists_of_returnsAt ht
  have h := accepted_returns_end_calls .unlimited (fun _ => .ofNat 0)
    [⟨9, "fun f(n) { while (true) { if (n > 0) return n; } }"⟩] ⟨9, "{ print f(1); }"⟩ ha
  exact ⟨runs, c, v, m, ha, htrail, hr, h.2.2 runs c v m htrail hr⟩

end Session
end Scriptlet
