import Mathlib
import Scriptlet.Proofs.Continuation

/-!
# Sessions in step

Two sessions are twins when their machines are and their next nodes get numbers that stand for each other.  Texts whose
tokens stand for each other keep them twins, and end alike (`Session.Twins.run`).  The numbers may stand for each other
in any way that is one to one, so the sessions may have numbered their nodes differently (`Likeness.OneToOne`), and the
tokens may stand on different lines.
-/
namespace Scriptlet

variable {L : Likeness} {R : Fault → Fault → Prop}

/-! ## Tables -/

/-- Each number stands for one number only, and no two for the same. -/
def Likeness.OneToOne (L : Likeness) : Prop :=
  ∀ ⦃i i' j j' : Nat⦄, L.number i i' → L.number j j' → (i = j ↔ i' = j')

/-- Entries under numbers that stand for each other, with one distance. -/
abbrev EntriesAlike (L : Likeness) : List (Nat × Nat) → List (Nat × Nat) → Prop :=
  List.Forall₂ fun a a' => L.number a.1 a'.1 ∧ a.2 = a'.2

theorem Bindings.add_alike (h : L.OneToOne) {es es' : List (Nat × Nat)} (he : EntriesAlike L es es') :
    ∀ {left right : Bindings}, (∀ {i i'}, L.number i i' → left[i]? = right[i']?) →
      ∀ {i i'}, L.number i i' → (left.add es)[i]? = (right.add es')[i']? := by
  induction he with
  | nil => exact fun ht _ _ hi => ht hi
  | @cons e e' es es' hd _ ih =>
    obtain ⟨k, d⟩ := e
    obtain ⟨k', d'⟩ := e'
    obtain ⟨hk, rfl⟩ := hd
    intro left right ht i i' hi
    unfold Bindings.add at ih ⊢
    rw [Std.TreeMap.insertMany_cons, Std.TreeMap.insertMany_cons]
    refine ih (fun {j j'} hj => ?_) hi
    simp only [Std.TreeMap.getElem?_insert, Nat.compare_eq_eq]
    by_cases hkj : k = j
    · rw [if_pos hkj, if_pos ((h hk hj).1 hkj)]
    · rw [if_neg hkj, if_neg fun hc => hkj ((h hk hj).2 hc), ht hj]

/-! ## Analysis -/

/-- Analyses with trees that are alike, and faults that are related. -/
structure Analysis.Alike (L : Likeness) (R : Fault → Fault → Prop) (a a' : Analysis) : Prop where
  statements : Stmt.AllAlike L a.statements a'.statements
  entries : EntriesAlike L a.entries a'.entries
  faults : List.Forall₂ R a.faults a'.faults
  fresh : ∀ i, L.number (a.fresh + i) (a'.fresh + i)

theorem parsedTokens_alike {tokens tokens' : List Token} (h : List.Forall₂ L.token tokens tokens') :
    List.Forall₂ L.token (parsedTokens tokens) (parsedTokens tokens') := by
  unfold parsedTokens
  induction h with
  | nil => exact .nil
  | cons ht _ ih =>
    rw [List.takeWhile_cons, List.takeWhile_cons, L.kind ht]
    split
    · exact .cons ht ih
    · exact .nil

theorem find?_eof_alike {tokens tokens' : List Token} (h : List.Forall₂ L.token tokens tokens') :
    Option.Rel L.token (tokens.find? (·.kind = .eof)) (tokens'.find? (·.kind = .eof)) := by
  induction h with
  | nil => exact .none
  | cons ht _ ih =>
    rw [List.find?_cons, List.find?_cons, L.kind ht]
    split
    · exact .some ht
    · exact ih

/-- The tokens of a text have an end among them, so the parses of both start alike. -/
theorem startOf_alike {source source' : String} {k k' : Nat}
    (h : List.Forall₂ L.token (tokensOf (scan source)) (tokensOf (scan source')))
    (hn : ∀ i, L.number (k + i) (k' + i)) :
    (startOf k (tokensOf (scan source))).Alike L (startOf k' (tokensOf (scan source'))) := by
  refine ⟨parsedTokens_alike h, ?_, hn, .nil⟩
  have hend : ((tokensOf (scan source)).find? (·.kind = .eof)).isSome := by
    rw [List.find?_isSome, tokensOf_scan]
    exact ⟨_, List.mem_append_right _ (List.mem_singleton_self _), rfl⟩
  have hf := find?_eof_alike h
  simp only [startOf]
  generalize (tokensOf (scan source)).find? (·.kind = .eof) = o,
    (tokensOf (scan source')).find? (·.kind = .eof) = o' at hf hend ⊢
  cases hf with
  | none => cases hend
  | some ht => exact ht

/-- **Texts whose tokens stand for each other are analyzed alike.** -/
theorem analyze_alike (hR : ∀ {f f'}, f.Alike L f' → R f f') {source source' : String} {k k' : Nat}
    (h : List.Forall₂ L.token (tokensOf (scan source)) (tokensOf (scan source')))
    (hf : List.Forall₂ R (faultsOf (scan source)) (faultsOf (scan source'))) (hn : ∀ i, L.number (k + i) (k' + i)) :
    (analyze k source).Alike L R (analyze k' source') := by
  obtain ⟨hss, hfs, hfresh⟩ := parse_alike (startOf_alike h hn)
  simp only [analyze, readSource]
  generalize parse k (tokensOf (scan source)) = parsed, parse k' (tokensOf (scan source')) = parsed' at *
  have hb := resolve_alike hss
  refine ⟨hss, hb.entries, ?_, hfresh⟩
  exact List.rel_append (List.rel_append hf (hfs.imp fun _ _ => hR)) (hb.faults.imp fun _ _ => hR)

/-! ## Runs -/

/-- Outcomes of one kind, with faults that are related. -/
inductive Outcome.Related (R : Fault → Fault → Prop) : Outcome → Outcome → Prop
  | completed : Related R .completed .completed
  | staticFaults {fs fs' : List Fault} (h : List.Forall₂ R fs fs') : Related R (.staticFaults fs) (.staticFaults fs')
  | runtimeFault {f f' : Fault} (h : R f f') : Related R (.runtimeFault f) (.runtimeFault f')
  | unfinished : Related R .unfinished .unfinished

theorem Signal.Alike.related (hR : ∀ {f f'}, f.Alike L f' → R f f') {α α' : Type} {Q : α → α' → Prop}
    {signal : Signal α} {signal' : Signal α'} (h : signal.Alike [L] Q signal') :
    signal.outcome.Related R signal'.outcome := by
  cases h with
  | value _ => exact .completed
  | returned _ => exact .completed
  | failed h =>
    obtain ⟨L', hL, h⟩ := h
    rw [List.mem_singleton] at hL
    subst hL
    exact .runtimeFault (hR h)
  | spent => exact .unfinished

/-- Sessions whose machines are twins and whose next nodes get numbers that stand for each other. -/
structure Session.Twins (L : Likeness) (s s' : Session) : Prop where
  machine : ∃ T : Tables [L], s.machine.Twins T s'.machine
  fresh : ∀ i, L.number (s.fresh + i) (s'.fresh + i)

namespace Session.Twins

variable {s s' : Session} {a a' : Analysis}

/-- The runs of analyses that are alike. -/
theorem exec (h : s.Twins L s') (hL : L.OneToOne) (ha : a.Alike L R a') (n : Nat) :
    (s.exec n a).1.Alike [L] (fun _ _ => True) (s'.exec n a').1 ∧
      ∃ T : Tables [L], (s.exec n a).2.Twins T (s'.exec n a').2 := by
  obtain ⟨T, hm⟩ := h.machine
  have hT : ∀ {i i'}, L.number i i' → s.machine.bindings[i]? = s'.machine.bindings[i']? := fun hi => by
    rw [hm.left, hm.right]
    exact T.agree (List.mem_singleton_self L) hi
  let T' : Tables [L] :=
    { left := s.machine.bindings.add a.entries
      right := s'.machine.bindings.add a'.entries
      agree := fun hL' _ _ hi => Bindings.add_alike hL ha.entries hT (List.mem_singleton.1 hL' ▸ hi) }
  have hstart : (s.starting n a).machine.Twins T' (s'.starting n a').machine :=
    ⟨⟨hm.store, rfl, rfl, hm.sink, hm.clock, hm.ticks, hm.fresh⟩, hm.here⟩
  obtain ⟨hsignal, hend⟩ := alike_execAll (List.mem_singleton_self L) n ha.statements hstart
  exact ⟨hsignal, T', hend⟩

theorem run_analyzed (h : s.Twins L s') (hL : L.OneToOne) (hR : ∀ {f f'}, f.Alike L f' → R f f')
    (ha : a.Alike L R a') (n : Nat) :
    (s.ended n a).1.Related R (s'.ended n a').1 ∧ (s.ended n a).2.Twins L (s'.ended n a').2 := by
  obtain ⟨hsignal, T, hm⟩ := h.exec hL ha n
  refine ⟨?_, ⟨T, ?_⟩, ha.fresh⟩
  · unfold Session.ended
    rw [interpret_eq, interpret_eq]
    change Outcome.Related R (if (s.exec n a).2.sink.flushable then _ else _)
      (if (s'.exec n a').2.sink.flushable then _ else _)
    rw [hm.sink]
    split
    · exact hsignal.related hR
    · exact .runtimeFault (hR (.output _))
  · rw [ended_machine, ended_machine]
    exact hm

theorem accepts_iff {source source' : String} (ha : (analyze s.fresh source).Alike L R (analyze s'.fresh source')) :
    s.Accepts source ↔ s'.Accepts source' := by
  unfold Accepts
  rw [← List.length_eq_zero_iff, ← List.length_eq_zero_iff, ha.faults.length_eq]

/-- **Texts that are analyzed alike keep sessions twins, and end alike.** -/
theorem run (h : s.Twins L s') (hL : L.OneToOne) (hR : ∀ {f f'}, f.Alike L f' → R f f') (n : Nat)
    {source source' : String} (ha : (analyze s.fresh source).Alike L R (analyze s'.fresh source')) :
    (s.run n source).1.Related R (s'.run n source').1 ∧ (s.run n source).2.Twins L (s'.run n source').2 := by
  have hiff := accepts_iff ha
  by_cases hacc : s.Accepts source
  · have hrun := run_accepted (t := ⟨n, source⟩) hacc
    have hrun' := run_accepted (t := ⟨n, source'⟩) (hiff.1 hacc)
    dsimp only at hrun hrun'
    rw [hrun, hrun']
    generalize analyze s.fresh source = a, analyze s'.fresh source' = a' at *
    exact h.run_analyzed hL hR ha n
  · have hrun := run_rejected (t := ⟨n, source⟩) hacc
    have hrun' := run_rejected (t := ⟨n, source'⟩) fun h' => hacc (hiff.2 h')
    dsimp only at hrun hrun'
    rw [hrun, hrun']
    generalize analyze s.fresh source = a, analyze s'.fresh source' = a' at *
    exact ⟨.staticFaults ha.faults, h.machine, ha.fresh⟩

end Session.Twins
end Scriptlet
