import Mathlib
import Scriptlet.Proofs.SessionTwins

/-!
# Rejected texts leave no trace

A text with a static fault takes numbers for its nodes and does nothing else.  So the session goes on as if the text had
not been there: from then on every node has a number that is larger by so many (`Likeness.later`), the functions of
earlier texts keep theirs, and nothing that is seen of a text depends on a number (`Session.Twins.observations_eq`).
-/
namespace Scriptlet

/-! ## Later numbers -/

namespace Likeness

/-- Tokens stand for themselves; the numbers below `k` do too, and those from `k` on for the ones larger by `d`. -/
def later (k d : Nat) : Likeness where
  token := Eq
  number i i' := (i < k ∧ i' = i) ∨ (k ≤ i ∧ i' = i + d)
  kind := @unnumbered.kind
  lexeme := @unnumbered.lexeme

theorem later_oneToOne (k d : Nat) : (later k d).OneToOne := by
  intro i i' j j' hi hj
  simp only [later] at hi hj
  omega

end Likeness

theorem Outcome.Related.eq {o o' : Outcome} (h : o.Related Eq o') : o = o' := by
  cases h with
  | completed => rfl
  | staticFaults h =>
    rw [List.forall₂_eq_eq_eq] at h
    rw [h]
  | runtimeFault h => rw [h]
  | unfinished => rfl

/-- A text is analyzed alike under any numbers that stand for each other, down to the same faults. -/
theorem analyze_alike_same {L : Likeness} (hr : ∀ t, L.token t t) (hL : ∀ {t t'}, L.token t t' → t = t') {j k : Nat}
    (hn : ∀ i, L.number (j + i) (k + i)) (source : String) : (analyze j source).Alike L Eq (analyze k source) :=
  analyze_alike (fun h => h.eq hL) (List.forall₂_same.2 fun t _ => hr t) (List.forall₂_same.2 fun _ _ => rfl) hn

/-- The faults of a text do not depend on how its nodes are numbered. -/
theorem analyze_faults_eq (j k : Nat) (source : String) : (analyze j source).faults = (analyze k source).faults := by
  have h := (analyze_alike_same (L := .unnumbered) (j := j) (k := k) (fun _ => rfl) id (fun _ => trivial) source).faults
  rwa [List.forall₂_eq_eq_eq] at h

/-! ## Observations -/

/-- How a text of a session fared, and the bytes it printed. -/
structure Observation where
  outcome : Outcome
  printed : ByteArray

namespace Session

/-- What is seen of the run of a text. -/
def observation (s : Session) (t : Text) : Observation :=
  let (outcome, s') := s.run t.bound t.source
  ⟨outcome, s'.machine.sink.bytes.extract s.machine.sink.bytes.size s'.machine.sink.bytes.size⟩

/-- What is seen of the texts of a session, in order. -/
def observations (s : Session) : List Text → List Observation
  | [] => []
  | t :: ts => s.observation t :: observations (s.run t.bound t.source).2 ts

theorem observations_append (us : List Text) : ∀ (s : Session) (ts : List Text),
    s.observations (ts ++ us) = s.observations ts ++ (s.after ts).observations us
  | _, [] => rfl
  | s, t :: ts => by
    rw [List.cons_append, observations, observations, observations_append us _ ts]
    rfl

@[simp] theorem length_observations : ∀ (s : Session) (ts : List Text), (s.observations ts).length = ts.length
  | _, [] => rfl
  | s, t :: ts => by rw [observations, List.length_cons, List.length_cons, length_observations]

/-- **Of sessions that are twins the same is seen**, if tokens stand for themselves. -/
theorem Twins.observations_eq {L : Likeness} (hL : L.OneToOne) (hr : ∀ t, L.token t t)
    (he : ∀ {t t'}, L.token t t' → t = t') : ∀ {s s' : Session} (ts : List Text), s.Twins L s' →
      s.observations ts = s'.observations ts
  | _, _, [], _ => rfl
  | s, s', t :: ts, h => by
    obtain ⟨ho, hs⟩ := h.run hL (fun hf => hf.eq he) t.bound (analyze_alike_same hr he h.fresh t.source)
    obtain ⟨T, hm⟩ := h.machine
    obtain ⟨T', hm'⟩ := hs.machine
    have hseen : s.observation t = s'.observation t := by
      simp only [observation]
      rw [ho.eq, hm.sink, hm'.sink]
    rw [observations, observations, hseen, Twins.observations_eq hL hr he ts hs]

/-! ## A text that is rejected -/

theorem covered_later (texts : List Text) (k d : Nat) : Covered (waysBelow texts k) [.later k d] := by
  intro L hL
  refine ⟨_, List.mem_singleton_self _, ?_, fun {i i'} hi => ?_⟩
  · obtain ⟨L', hL', rfl⟩ := List.mem_map.1 hL
    obtain ⟨t, -, rfl⟩ := List.mem_map.1 hL'
    exact fun ht => ht.2.symm
  · obtain ⟨hlt, rfl⟩ := number_of_mem_waysBelow hL hi
    exact .inl ⟨hlt, rfl⟩

/-- A session that has taken more numbers is a twin of the session that has not. -/
theorem twins_later (sink : Sink) (clock : Nat → Number) (texts : List Text) (d : Nat) :
    let s := (start sink clock).after texts
    s.Twins (.later s.fresh d) { s with fresh := s.fresh + d } := by
  have hstore := store_alike_self sink clock texts
  have htable := (session_sound sink clock texts).table.above
  dsimp only
  generalize (start sink clock).after texts = s at hstore htable ⊢
  refine ⟨⟨⟨s.machine.bindings, s.machine.bindings, fun {L} hL {i i'} hi => ?_⟩, ?_⟩, fun i =>
    .inr ⟨Nat.le_add_right _ _, Nat.add_right_comm _ _ _⟩⟩
  · rw [List.mem_singleton] at hL
    subst hL
    rcases hi with ⟨-, rfl⟩ | ⟨hle, rfl⟩
    · rfl
    · rw [htable i hle, htable (i + d) (Nat.le_add_right_of_le hle)]
  · exact ⟨⟨hstore.covered (covered_later texts s.fresh d), rfl, rfl, rfl, rfl, rfl, rfl⟩, rfl⟩

/-- What a rejected text does to a session. -/
theorem observation_rejected {s : Session} {t : Text} (h : ¬ s.Accepts t.source) :
    s.observation t = ⟨.staticFaults (analyze s.fresh t.source).faults, .empty⟩ ∧
      (s.run t.bound t.source).2 = { s with fresh := (analyze s.fresh t.source).fresh } := by
  rw [observation, run_rejected h]
  exact ⟨by simp, rfl⟩

/-- **A rejected text leaves no trace.**  Wherever it stands in a session, its faults are seen of it and no byte; and in
the session without it the same is seen of every other text: the same outcome, with the same faults on the same lines,
and the same bytes. -/
theorem rejected_text_leaves_no_trace (sink : Sink) (clock : Nat → Number) (before behind : List Text) (t : Text)
    {k : Nat} (h : (analyze k t.source).faults ≠ []) :
    let s := start sink clock
    (s.observations (before ++ t :: behind))[before.length]? =
      some ⟨.staticFaults (analyze k t.source).faults, .empty⟩ ∧
      s.observations (before ++ behind) = (s.observations (before ++ t :: behind)).eraseIdx before.length := by
  have htwins := twins_later sink clock before
  have hlength := length_observations (start sink clock) before
  dsimp only at htwins ⊢
  rw [observations_append, observations_append, ← hlength]
  generalize (start sink clock).observations before = rs, (start sink clock).after before = s at htwins ⊢
  obtain ⟨hseen, hnext⟩ := observation_rejected (s := s) (t := t) fun ha => h (accepted_of_accepted ha k)
  obtain ⟨d, hd⟩ := Nat.exists_eq_add_of_le (fresh_le_analyze s.fresh t.source)
  rw [analyze_faults_eq s.fresh k] at hseen
  rw [hd] at hnext
  have hbehind := Twins.observations_eq (Likeness.later_oneToOne s.fresh d) (fun _ => rfl) id behind (htwins d)
  rw [observations, hseen, hnext]
  refine ⟨by simp, ?_⟩
  rw [List.eraseIdx_append_of_length_le (Nat.le_refl _), Nat.sub_self, List.eraseIdx_cons_zero, hbehind]

/-- The rejected text stands between a text that declares a function and one that calls it. -/
theorem rejected_text_between_texts :
    let s := start .unlimited fun _ => .ofNat 0
    let counter : Text := ⟨9, "fun make(n) { fun next() { n = n + 1; return n; } return next; } var next = make(2);"⟩
    let broken : Text := ⟨9, "{ var c = next; c = ; print c; }"⟩
    let caller : Text := ⟨9, "{ var d = next(); print d + next(); }"⟩
    let failing : Text := ⟨9, "print next();\nprint d;"⟩
    (analyze 0 broken.source).faults ≠ [] ∧
      (s.observations [counter, caller, failing]).map Observation.printed = [.empty, "7\n".toUTF8, "5\n".toUTF8] ∧
      (s.observations [counter, caller, failing]).flatMap (·.outcome.faults) = [.run 2 (.undefinedVariable "d")] ∧
      s.observations [counter, caller, failing] = (s.observations [counter, broken, caller, failing]).eraseIdx 1 := by
  have hfaults : (analyze 0 "{ var c = next; c = ; print c; }").faults ≠ [] := by decide +kernel
  refine ⟨hfaults, by decide +kernel, by decide +kernel, ?_⟩
  exact (rejected_text_leaves_no_trace .unlimited (fun _ => .ofNat 0) [_] [_, _] ⟨9, _⟩ hfaults).2

end Session
end Scriptlet
