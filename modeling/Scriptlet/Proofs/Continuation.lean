import Mathlib
import Scriptlet.Proofs.Joining
import Scriptlet.Proofs.Returns
import Scriptlet.Proofs.Twins

/-!
# Line by line, or all at once

Two texts that are run one after the other do what the one text of both does (`Session.exec_both`).  The first part
runs on a table that has the entries of the second already, under numbers that it never looks up (`Tables.ahead`).  The
second part has the same table and the same numbers both times, and tokens further down.  The functions that are in the
frames before are those of earlier texts, with earlier numbers (`Session.store_alike_self`).
-/
namespace Scriptlet

/-! ## Where functions come from -/

theorem Token.down_zero : Token.down 0 = id := rfl

/-- The trees of an accepted text are alike by its own tokens and its own numbers. -/
theorem analyze_alike_self {k : Nat} {source : String} (h : (analyze k source).faults = []) :
    Stmt.AllAlike ((Likeness.moved 0 source).below (analyze k source).fresh) (analyze k source).statements
      (analyze k source).statements := by
  obtain ⟨hss, -, -⟩ := parse_alike (startOf_moved k 0 source)
  rw [Token.down_zero, List.map_id] at hss
  have hn := (analyze_good h).numbered
  rw [programPlaces, Stmt.placesAll_snd] at hn
  simp only [analyze, readSource] at hn ⊢
  generalize parse k (tokensOf (scan source)) = parsed at *
  apply hss.imp
  · exact id
  · exact fun o ho i' hi => ⟨(hn.mem o.id (List.mem_map_of_mem ho)).2, hi⟩

/-- The ways for functions of the texts to be alike: each by the tokens of its own text. -/
def ways (texts : List Text) : List Likeness := texts.map fun t => .moved 0 t.source

/-- The same for numbers below a bound. -/
def waysBelow (texts : List Text) (n : Nat) : List Likeness := (ways texts).map (·.below n)

theorem number_of_mem_ways {texts : List Text} {L : Likeness} (hL : L ∈ ways texts) {i i' : Nat} (h : L.number i i') :
    i = i' := by
  obtain ⟨t, -, rfl⟩ := List.mem_map.1 hL
  exact h

theorem number_of_mem_waysBelow {texts : List Text} {n : Nat} {L : Likeness} (hL : L ∈ waysBelow texts n) {i i' : Nat}
    (h : L.number i i') : i < n ∧ i = i' := by
  obtain ⟨L', hL', rfl⟩ := List.mem_map.1 hL
  exact ⟨h.1, number_of_mem_ways hL' h.2⟩

/-- A function of an earlier text is alike to itself only. -/
theorem exact_of_mem_waysBelow {texts : List Text} {n : Nat} {L : Likeness} (hL : L ∈ waysBelow texts n) : L.Exact := by
  refine ⟨fun {t t'} ht => ?_, fun hi => (number_of_mem_waysBelow hL hi).2⟩
  obtain ⟨L', hL', rfl⟩ := List.mem_map.1 hL
  obtain ⟨u, -, rfl⟩ := List.mem_map.1 hL'
  rw [ht.2, Token.down_zero, id]

theorem covered_waysBelow (texts : List Text) (t : Text) {n n' : Nat} (h : n ≤ n') :
    Covered (waysBelow texts n) (waysBelow (texts ++ [t]) n') := by
  intro _ hm
  obtain ⟨L, hL, rfl⟩ := List.mem_map.1 hm
  refine ⟨L.below n', List.mem_map_of_mem ?_, L.below_mono h⟩
  rw [ways, List.map_append]
  exact List.mem_append_left _ hL

theorem mem_waysBelow (texts : List Text) (t : Text) (n : Nat) :
    (Likeness.moved 0 t.source).below n ∈ waysBelow (texts ++ [t]) n := by
  rw [waysBelow, ways, List.map_append, List.map_append]
  exact List.mem_append_right _ (List.mem_singleton_self _)

theorem Store.alike_self {W : List Likeness} {s : Store} (h : ∀ f, ∀ c ∈ s.cells f, c.2.Alike W c.2) : s.Alike W s :=
  ⟨rfl, fun _ => rfl, fun f => List.forall₂_same.2 fun c hc => ⟨rfl, h f c hc⟩⟩

theorem Bindings.add_append (table : Bindings) (es fs : List (Nat × Nat)) :
    table.add (es ++ fs) = (table.add es).add fs := by
  induction es generalizing table with
  | nil => rfl
  | cons e es ih =>
    obtain ⟨k, d⟩ := e
    unfold Bindings.add at ih ⊢
    rw [List.cons_append, Std.TreeMap.insertMany_cons, Std.TreeMap.insertMany_cons, ih]

/-- One table for both. -/
def Tables.same {W : List Likeness} (table : Bindings) (h : ∀ {L}, L ∈ W → ∀ {i i'}, L.number i i' → i = i') :
    Tables W where
  left := table
  right := table
  agree hL _ _ hi := by rw [h hL hi]

/-- A table, and the same table with the entries of a later text, which has later numbers. -/
def Tables.ahead (texts : List Text) {k : Nat} (table : Bindings) {b : Analysis} (hb : b.Good k) :
    Tables (waysBelow texts k) where
  left := table
  right := table.add b.entries
  agree hL i i' hi := by
    obtain ⟨hlt, rfl⟩ := number_of_mem_waysBelow hL hi
    rw [hb.entries, Bindings.add_of_not_mem fun p hp => ?_]
    have := (hb.numbered.mem _ (List.mem_map_of_mem (List.mem_map_of_mem hp))).1
    omega

namespace Session

/-- The run of an analyzed text. -/
def exec (s : Session) (n : Nat) (a : Analysis) : Signal Unit × Machine :=
  Stmt.execAll (invoke n) n a.statements (s.starting n a).machine

theorem ended_machine (s : Session) (n : Nat) (a : Analysis) : (s.ended n a).2.machine = (s.exec n a).2 :=
  interpret_snd n a.statements _

/-- Every function in the frames is one of a text: its trees are alike by tokens of that text. -/
theorem store_alike_self (sink : Sink) (clock : Nat → Number) (texts : List Text) :
    ((start sink clock).after texts).machine.store.Alike (waysBelow texts ((start sink clock).after texts).fresh)
      ((start sink clock).after texts).machine.store := by
  induction texts using List.reverseRecOn with
  | nil =>
    have hs : (Store.empty.add none).2.Alike (waysBelow [] 0) (Store.empty.add none).2 := by
      refine Store.alike_self fun f c hc => ?_
      cases Store.mem_cells_add hc
    exact hs.define Machine.globals _ (.same rfl)
  | append_singleton texts t ih =>
    rw [after_snoc]
    generalize (start sink clock).after texts = s at ih ⊢
    have hc := covered_waysBelow texts t (fresh_le_analyze s.fresh t.source)
    by_cases ha : s.Accepts t.source
    -- The run is its own twin, so what it leaves in the frames is alike to itself.
    · have hss := analyze_alike_self ha
      rw [run_accepted ha]
      generalize analyze s.fresh t.source = a at *
      have hm : (s.starting t.bound a).machine.Twins (.same _ fun hL _ _ hi => (number_of_mem_waysBelow hL hi).2)
          (s.starting t.bound a).machine := ⟨⟨ih.covered hc, rfl, rfl, rfl, rfl, rfl, rfl⟩, rfl⟩
      have hr := (alike_execAll (mem_waysBelow texts t a.fresh) t.bound hss hm).2.store
      rw [ended_machine]
      exact hr
    · rw [run_rejected ha]
      generalize analyze s.fresh t.source = a at hc ⊢
      exact ih.covered hc

end Session

/-! ## Runs in two parts -/

/-- The ways for what two sessions hold to be alike, where one has run two texts and the other both in one: a function
of an earlier text or of the first is as it was, one of the second stands further down. -/
def partWays (texts : List Text) (first second : String) : List Likeness :=
  ways texts ++ [.moved 0 first, .moved (linesOver first) second]

theorem number_of_mem_partWays {texts : List Text} {first second : String} {L : Likeness}
    (hL : L ∈ partWays texts first second) {i i' : Nat} (h : L.number i i') : i = i' := by
  rcases List.mem_append.1 hL with hL | hL
  · exact number_of_mem_ways hL h
  · simp only [List.mem_cons, List.not_mem_nil, or_false] at hL
    rcases hL with rfl | rfl <;> exact h

theorem covered_partWays (texts : List Text) (n : Nat) (first second : String) (k : Nat) :
    Covered (waysBelow (texts ++ [⟨n, first⟩]) k) (partWays texts first second) := by
  intro _ hm
  obtain ⟨L, hL, rfl⟩ := List.mem_map.1 hm
  refine ⟨L, ?_, L.below_le k⟩
  rw [ways, List.map_append] at hL
  rw [partWays, List.append_cons]
  exact List.mem_append_left _ hL

/-- Machines that hold the same but for functions that are alike. -/
structure Machine.Alike (W : List Likeness) (m m' : Machine) : Prop where
  store : m.store.Alike W m'.store
  here : m.here = m'.here
  bindings : m.bindings = m'.bindings
  sink : m.sink = m'.sink
  clock : m.clock = m'.clock
  ticks : m.ticks = m'.ticks
  fresh : m.fresh = m'.fresh

inductive Outcome.Alike (W : List Likeness) : Outcome → Outcome → Prop
  | completed : Alike W .completed .completed
  | runtimeFault {f f' : Fault} {L : Likeness} (hL : L ∈ W) (h : f.Alike L f') :
      Alike W (.runtimeFault f) (.runtimeFault f')
  | unfinished : Alike W .unfinished .unfinished

theorem Outcome.completed_of_exitCode {o : Outcome} (h : o.exitCode = 0) : o = .completed := by
  cases o with
  | completed => rfl
  | _ => cases h

theorem Signal.Alike.outcome {W : List Likeness} {α α' : Type} {R : α → α' → Prop} {signal : Signal α}
    {signal' : Signal α'} (h : signal.Alike W R signal') : signal.outcome.Alike W signal'.outcome := by
  cases h with
  | value _ => exact .completed
  | returned _ => exact .completed
  | failed h =>
    obtain ⟨L, hL, h⟩ := h
    exact .runtimeFault hL h
  | spent => exact .unfinished

namespace Session

section

variable {s : Session} {texts : List Text} {n : Nat} {first second : String} {a b : Analysis} {below : List Stmt}

/-- The analysis of two texts in one. -/
abbrev both (a b : Analysis) (below : List Stmt) : Analysis :=
  ⟨a.statements ++ below, a.entries ++ b.entries, [], b.fresh⟩

/-- **The first part of a text runs as on its own**: its table has the entries of the second part already, which are
never looked up.  The rest of the text starts where the second text would. -/
theorem exec_first (n : Nat) (below : List Stmt)
    (hs : s.machine.store.Alike (waysBelow texts s.fresh) s.machine.store) (hle : s.fresh ≤ a.fresh)
    (ha : Stmt.AllAlike ((Likeness.moved 0 first).below a.fresh) a.statements a.statements) (hb : b.Good a.fresh) :
    (s.exec n a).2.store.Alike (waysBelow (texts ++ [⟨n, first⟩]) a.fresh) (s.exec n a).2.store ∧
      s.exec n (both a b below) = match s.exec n a with
        | (.value _, m) => exec ⟨m, a.fresh⟩ n { b with statements := below }
        | (.returned v, m) => (.returned v, (starting ⟨m, a.fresh⟩ n b).machine)
        | (.failed f, m) => (.failed f, (starting ⟨m, a.fresh⟩ n b).machine)
        | (.spent, m) => (.spent, (starting ⟨m, a.fresh⟩ n b).machine) := by
  have hexact : ∀ L ∈ waysBelow (texts ++ [⟨n, first⟩]) a.fresh, L.Exact := fun L => exact_of_mem_waysBelow
  have hm : (s.starting n a).machine.Twins (.ahead (texts ++ [⟨n, first⟩]) (s.machine.bindings.add a.entries) hb)
      (s.starting n (both a b below)).machine :=
    ⟨⟨hs.covered (covered_waysBelow _ _ hle), rfl, Bindings.add_append _ _ _, rfl, rfl, rfl, rfl⟩, rfl⟩
  obtain ⟨hsignal, htwins⟩ := alike_execAll (mem_waysBelow texts ⟨n, first⟩ a.fresh) n ha hm
  have hstore := htwins.store
  have hmachine := htwins.eq hexact
  rw [hmachine] at hstore
  refine ⟨hstore, ?_⟩
  have hrun : Stmt.execAll (invoke n) n a.statements (s.starting n (both a b below)).machine =
      ((s.exec n a).1, (starting ⟨(s.exec n a).2, a.fresh⟩ n b).machine) := by
    have hleft : (s.exec n a).2.bindings = s.machine.bindings.add a.entries := htwins.left
    refine Prod.ext (hsignal.eq hexact).symm (hmachine.trans ?_)
    exact congrArg (fun table : Bindings => { (s.exec n a).2 with bindings := table.add b.entries }) hleft.symm
  have he : s.exec n (both a b below) = (Stmt.execAll (invoke n) n a.statements >>= fun _ =>
      Stmt.execAll (invoke n) n below) (s.starting n (both a b below)).machine := by
    rw [← execAll_append]
    rfl
  rw [he, Run.bind_def, hrun]
  rcases s.exec n a with ⟨_ | _ | _ | _, _⟩ <;> rfl

/-- **The second part of a text runs as on its own behind the first**, but for the lines of its tokens. -/
theorem exec_second {m : Machine} {k : Nat}
    (hs : m.store.Alike (waysBelow (texts ++ [⟨n, first⟩]) k) m.store)
    (hbelow : Stmt.AllAlike (.moved (linesOver first) second) b.statements below) :
    (exec ⟨m, k⟩ n b).1.Alike (partWays texts first second) (fun _ _ => True)
        (exec ⟨m, k⟩ n { b with statements := below }).1 ∧
      (exec ⟨m, k⟩ n b).2.Alike (partWays texts first second) (exec ⟨m, k⟩ n { b with statements := below }).2 := by
  have hL : Likeness.moved (linesOver first) second ∈ partWays texts first second := by simp [partWays]
  have hm : (starting ⟨m, k⟩ n b).machine.Twins
      (.same (W := partWays texts first second) (m.bindings.add b.entries) number_of_mem_partWays)
      (starting ⟨m, k⟩ n { b with statements := below }).machine :=
    ⟨⟨hs.covered (covered_partWays _ _ _ _ _), rfl, rfl, rfl, rfl, rfl, rfl⟩, rfl⟩
  obtain ⟨hsignal, ht⟩ := alike_execAll hL n hbelow hm
  exact ⟨hsignal, ht.store, ht.here, ht.left.trans ht.right.symm, ht.sink, ht.clock, ht.ticks, ht.fresh⟩

/-- **How a text of two parts runs**: as the second part behind the first if that ends well, and else as the first. -/
theorem exec_both (hs : s.machine.store.Alike (waysBelow texts s.fresh) s.machine.store) (hle : s.fresh ≤ a.fresh)
    (ha : Stmt.AllAlike ((Likeness.moved 0 first).below a.fresh) a.statements a.statements) (hb : b.Good a.fresh)
    (below : List Stmt) (hr : Run.Contained (Stmt.execAll (invoke n) n a.statements)) :
    (∃ u m, s.exec n a = (.value u, m) ∧ m.store.Alike (waysBelow (texts ++ [⟨n, first⟩]) a.fresh) m.store ∧
      s.exec n (both a b below) = exec ⟨m, a.fresh⟩ n { b with statements := below }) ∨
    (∃ f m m', s.exec n a = (.failed f, m) ∧ s.exec n (both a b below) = (.failed f, m') ∧ m'.sink = m.sink) ∨
    (∃ m m', s.exec n a = (.spent, m) ∧ s.exec n (both a b below) = (.spent, m') ∧ m'.sink = m.sink) := by
  obtain ⟨hstore, he⟩ := exec_first n below hs hle ha hb
  rcases hx : s.exec n a with ⟨u | v | f | _, m⟩ <;> rw [hx] at hstore he
  · exact .inl ⟨u, m, rfl, hstore, he⟩
  · exact absurd (congrArg Prod.fst hx) (hr _ _)
  · exact .inr (.inl ⟨f, m, _, rfl, he, rfl⟩)
  · exact .inr (.inr ⟨m, _, rfl, he, rfl⟩)

end

/-! ## Sessions -/

theorem ended_of_flushable {s : Session} {n : Nat} {a : Analysis} (h : (s.exec n a).2.sink.flushable = true) :
    s.ended n a = ((s.exec n a).1.outcome, ⟨(s.exec n a).2, a.fresh⟩) := by
  unfold ended
  rw [interpret_eq]
  exact congrArg (fun o : Outcome => (o, (⟨(s.exec n a).2, a.fresh⟩ : Session))) (if_pos h)

/-- The run of a text keeps the sink one that flushes. -/
theorem flushable_exec {sink : Sink} {clock : Nat → Number} {texts : List Text} {s : Session}
    (hs : s = (start sink clock).after texts) (hf : sink.flushable = true) (n : Nat) {source : String}
    (ha : s.Accepts source) : (s.exec n (analyze s.fresh source)).2.sink.flushable = true := by
  have hrun := run_accepted (t := ⟨n, source⟩) ha
  have hsound := (session_sound sink clock (texts ++ [⟨n, source⟩])).flushable
  dsimp only at hrun
  rw [after_snoc, ← hs, hrun, ended_machine] at hsound
  generalize (s.exec n (analyze s.fresh source)).2 = m at hsound ⊢
  exact hsound.trans hf

/-- With a sink that flushes, the run of an accepted text ends as its statements do. -/
theorem run_eq_exec {sink : Sink} {clock : Nat → Number} {texts : List Text} {s : Session}
    (hs : s = (start sink clock).after texts) (hf : sink.flushable = true) (n : Nat) {source : String}
    (ha : s.Accepts source) : s.run n source = ((s.exec n (analyze s.fresh source)).1.outcome,
      ⟨(s.exec n (analyze s.fresh source)).2, (analyze s.fresh source).fresh⟩) := by
  have hrun := run_accepted (t := ⟨n, source⟩) ha
  dsimp only at hrun
  rw [hrun, ended_of_flushable (flushable_exec hs hf n ha)]

theorem contained_accepted {k : Nat} {source : String} (h : (analyze k source).faults = []) (n : Nat) :
    Run.Contained (Stmt.execAll (invoke n) n (analyze k source).statements) := by
  obtain ⟨-, hr⟩ := analyze_resolved h
  exact contained_execAll (contained_invoke n) n _ hr

/-- **Line by line is the same as all at once.**  Two accepted texts with a newline between them are an accepted text.
If the run of the first completes, then the run of the second behind it ends as the run of the one text does, on the
same sink, with the same frames: a function of the second text, and a fault at one of its tokens, stands as many lines
further down as the first text and the newline take, and all others are as they were.  For the run of the one text is
the run of the second one's statements on what the first has left, with each of their tokens so many lines further down
and nothing else changed.  If the run of the first ends in a fault or at the bound, the run of the one text ends in the
same way, on the same sink. -/
theorem run_lines_as_one_text (sink : Sink) (clock : Nat → Number) (texts : List Text) (n : Nat)
    (first second : String) {j k : Nat} (hf : sink.flushable = true) (h₁ : (analyze j first).faults = [])
    (h₂ : (analyze k second).faults = []) :
    let s := (start sink clock).after texts
    let alone := s.run n first
    let behind := alone.2.run n second
    let joined := s.run n (first ++ "\n" ++ second)
    (∀ i, (analyze i (first ++ "\n" ++ second)).faults = []) ∧
      (alone.1 = .completed →
        behind.1.Alike (partWays texts first second) joined.1 ∧
          behind.2.machine.Alike (partWays texts first second) joined.2.machine ∧ behind.2.fresh = joined.2.fresh ∧
          ∃ below, Stmt.AllAlike (.moved (linesOver first) second) (analyze alone.2.fresh second).statements below ∧
            behind = alone.2.ended n (analyze alone.2.fresh second) ∧
            joined = alone.2.ended n { analyze alone.2.fresh second with statements := below }) ∧
      (∀ f, alone.1 = .runtimeFault f → joined.1 = .runtimeFault f ∧ joined.2.machine.sink = alone.2.machine.sink) ∧
      (alone.1 = .unfinished → joined.1 = .unfinished ∧ joined.2.machine.sink = alone.2.machine.sink) := by
  obtain ⟨s, hs⟩ : ∃ s, s = (start sink clock).after texts := ⟨_, rfl⟩
  have hstore := store_alike_self sink clock texts
  have hnext := after_snoc (start sink clock) texts ⟨n, first⟩
  rw [← hs] at hstore hnext ⊢
  have ha : s.Accepts first := accepted_of_accepted h₁ _
  have hb : (analyze (analyze s.fresh first).fresh second).faults = [] := accepted_of_accepted h₂ _
  obtain ⟨below, hbelow, hjoined⟩ := analyze_append_newline ha hb
  have hc : s.Accepts (first ++ "\n" ++ second) := by rw [Accepts, hjoined]
  have hparts := exec_both (n := n) hstore (fresh_le_analyze _ _) (analyze_alike_self ha) (analyze_good hb) below
    (contained_accepted ha n)
  have halone := run_eq_exec hs hf n ha
  have hboth := run_eq_exec hs hf n hc
  have hbehind := run_eq_exec hnext.symm hf n (accepted_of_accepted h₂ _)
  have hflush := flushable_exec hs hf n hc
  have hflush' := flushable_exec hnext.symm hf n (accepted_of_accepted h₂ _)
  dsimp only
  rw [halone] at hbehind hflush' ⊢
  rw [hbehind, hboth, hjoined]
  rw [hjoined] at hflush
  refine ⟨accepted_of_accepted hc, ?_⟩
  dsimp only at hflush' ⊢
  generalize analyze s.fresh first = a at *
  generalize analyze a.fresh second = b at *
  rcases hparts with ⟨u, m, hx, hm, hx'⟩ | ⟨f, m, m', hx, hx', hsink⟩ | ⟨m, m', hx, hx', hsink⟩
  · rw [hx] at hflush' ⊢
    rw [hx'] at hflush ⊢
    obtain ⟨hsignal, hmachine⟩ := exec_second hm hbelow
    refine ⟨fun _ => ⟨hsignal.outcome, hmachine, rfl, below, hbelow, ?_, ?_⟩, nofun, nofun⟩
    · exact (ended_of_flushable hflush').symm
    · exact (ended_of_flushable hflush).symm
  · rw [hx, hx']
    exact ⟨nofun, fun g hg => ⟨hg, hsink⟩, nofun⟩
  · rw [hx, hx']
    exact ⟨nofun, nofun, fun _ => ⟨rfl, hsink⟩⟩

/-- The second text calls a function of the first, which reads a variable of an earlier one, and then fails. -/
theorem failing_lines_as_one_text :
    let s := (start .unlimited fun _ => .ofNat 0).after [⟨9, "var k = 1;"⟩]
    let behind := (s.run 9 "fun f(n)\n{ return n + k; }").2.run 9 "print f(2);\nprint g;"
    let joined := s.run 9 ("fun f(n)\n{ return n + k; }" ++ "\n" ++ "print f(2);\nprint g;")
    behind.1.faults = [.run 2 (.undefinedVariable "g")] ∧ joined.1.faults = [.run 4 (.undefinedVariable "g")] ∧
      behind.1.Alike (partWays [⟨9, "var k = 1;"⟩] "fun f(n)\n{ return n + k; }" "print f(2);\nprint g;") joined.1 ∧
      behind.2.machine.Alike (partWays [⟨9, "var k = 1;"⟩] "fun f(n)\n{ return n + k; }" "print f(2);\nprint g;")
        joined.2.machine := by
  obtain ⟨-, h, -, -⟩ := run_lines_as_one_text .unlimited (fun _ => .ofNat 0) [⟨9, "var k = 1;"⟩] 9
    "fun f(n)\n{ return n + k; }" "print f(2);\nprint g;" (j := 0) (k := 0) rfl
    (by decide +kernel) (by decide +kernel)
  obtain ⟨houtcome, hmachine, -⟩ := h (Outcome.completed_of_exitCode (by decide +kernel))
  dsimp only
  exact ⟨by decide +kernel, by decide +kernel, houtcome, hmachine⟩

end Session
end Scriptlet
