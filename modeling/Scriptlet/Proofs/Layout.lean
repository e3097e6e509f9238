import Mathlib
import Scriptlet.Proofs.Bounds
import Scriptlet.Proofs.SessionTwins

/-!
# Layout does not matter

Blanks, newlines and comments only part the tokens of a text and give them their lines.  Nothing but the line of a
fault depends on a line, so two texts with the same words in the same order are found to have the same faults, or run
alike, on whatever lines their words stand (`Session.layout_does_not_matter`).
-/
namespace Scriptlet

/-! ## Without lines -/

/-- A token without its line. -/
def Token.word (t : Token) : Kind × String := (t.kind, t.lexeme)

/-- The fault without its line. -/
def Fault.anywhere : Fault → Fault
  | .lex _ cause => .lex 0 cause
  | .parse site cause => .parse { site with line := 0 } cause
  | .resolve site cause => .resolve { site with line := 0 } cause
  | .run _ cause => .run 0 cause
  | .output cause => .output cause

/-- The outcome without the lines of its faults. -/
def Outcome.anywhere : Outcome → Outcome
  | .completed => .completed
  | .staticFaults fs => .staticFaults (fs.map Fault.anywhere)
  | .runtimeFault f => .runtimeFault f.anywhere
  | .unfinished => .unfinished

/-- Faults of tokens with one word differ in their lines only. -/
theorem Fault.Alike.anywhere_eq {L : Likeness} {f f' : Fault} (h : f.Alike L f') : f.anywhere = f'.anywhere := by
  have hsite {t t' : Token} (ht : L.token t t') : { t.site with line := 0 } = { t'.site with line := 0 } := by
    simp only [Token.site, L.kind ht, L.lexeme ht]
  cases h with
  | parse ht cause => exact congrArg (Fault.parse · cause) (hsite ht)
  | resolve ht cause => exact congrArg (Fault.resolve · cause) (hsite ht)
  | run _ cause => rfl
  | output cause => rfl

theorem map_eq_map_iff_forall₂ {α β : Type} (f : α → β) {xs ys : List α} :
    xs.map f = ys.map f ↔ List.Forall₂ (fun x y => f x = f y) xs ys := by
  rw [← List.forall₂_eq_eq_eq, List.forall₂_map_left_iff, List.forall₂_map_right_iff]

/-- Faults that differ in their lines only. -/
abbrev Fault.SameAnywhere (f f' : Fault) : Prop := f.anywhere = f'.anywhere

theorem Outcome.Related.anywhere_eq {o o' : Outcome} (h : o.Related Fault.SameAnywhere o') :
    o.anywhere = o'.anywhere := by
  cases h with
  | completed => rfl
  | @staticFaults fs fs' h =>
    have hmap : fs.map Fault.anywhere = fs'.map Fault.anywhere := (map_eq_map_iff_forall₂ _).2 h
    rw [Outcome.anywhere, Outcome.anywhere, hmap]
  | runtimeFault h => exact congrArg Outcome.runtimeFault h
  | unfinished => rfl

namespace Likeness

/-- A token stands for every one with its word, and the numbers from `j` on for those from `k` on. -/
def words (j k : Nat) : Likeness where
  token t t' := t'.word = t.word
  number i i' := ∃ d, i = j + d ∧ i' = k + d
  kind h := congrArg Prod.fst h
  lexeme h := congrArg Prod.snd h

theorem words_oneToOne (j k : Nat) : (words j k).OneToOne := by
  rintro _ _ _ _ ⟨d, rfl, rfl⟩ ⟨e, rfl, rfl⟩
  omega

theorem tokens_words (j k : Nat) {tokens tokens' : List Token} (h : tokens.map Token.word = tokens'.map Token.word) :
    List.Forall₂ (words j k).token tokens tokens' :=
  ((map_eq_map_iff_forall₂ _).1 h).imp fun _ _ => Eq.symm

end Likeness

/-! ## Runs -/

namespace Session

/-- Fresh sessions are twins, from whatever numbers they go on. -/
theorem twins_start (sink : Sink) (clock : Nat → Number) (j k : Nat) :
    Twins (.words j k) ⟨.start sink clock, j⟩ ⟨.start sink clock, k⟩ := by
  have hstore := store_alike_self sink clock []
  have htable : (Machine.start sink clock).bindings = ∅ := rfl
  refine ⟨⟨⟨∅, ∅, fun _ _ _ _ => by simp⟩, ?_⟩, fun i => ⟨i, rfl, rfl⟩⟩
  exact ⟨⟨hstore.covered nofun, htable, htable, rfl, rfl, rfl, rfl⟩, rfl⟩

theorem Twins.ends_iff {L : Likeness} {R : Fault → Fault → Prop} {s s' : Session} (h : s.Twins L s') (hL : L.OneToOne)
    {source source' : String} (ha : (analyze s.fresh source).Alike L R (analyze s'.fresh source')) :
    s.Terminates source ↔ s'.Terminates source' := by
  have hiff := accepts_iff ha
  have hspent (n : Nat) : (s.exec n (analyze s.fresh source)).1 = .spent ↔
      (s'.exec n (analyze s'.fresh source')).1 = .spent := by
    generalize analyze s.fresh source = a, analyze s'.fresh source' = a' at ha ⊢
    obtain ⟨hsignal, -⟩ := h.exec hL ha n
    generalize (s.exec n a).1 = signal, (s'.exec n a').1 = signal' at hsignal ⊢
    cases hsignal <;> simp
  simp only [Terminates, TerminatesWithin, hiff, ne_eq, hspent]

/-- **Layout does not matter.**  Take two texts without lexical faults whose tokens have the same kinds (with the same
literals) and lexemes in the same order.  On fresh machines, with nodes numbered from anywhere, they have the same
outcome but for the lines of its faults, and leave the same sink, for every bound; and the run of the one ends exactly
if that of the other does. -/
theorem layout_does_not_matter (sink : Sink) (clock : Nat → Number) (j k : Nat) {source source' : String}
    (h : faultsOf (scan source) = []) (h' : faultsOf (scan source') = [])
    (hw : (tokensOf (scan source)).map Token.word = (tokensOf (scan source')).map Token.word) :
    let s : Session := ⟨.start sink clock, j⟩
    let s' : Session := ⟨.start sink clock, k⟩
    (∀ n, (s.run n source).1.anywhere = (s'.run n source').1.anywhere ∧
        (s.run n source).2.machine.sink = (s'.run n source').2.machine.sink) ∧
      (s.Terminates source ↔ s'.Terminates source') := by
  have htwins := twins_start sink clock j k
  have hL := Likeness.words_oneToOne j k
  have ha : (analyze j source).Alike (.words j k) Fault.SameAnywhere (analyze k source') :=
    analyze_alike Fault.Alike.anywhere_eq (Likeness.tokens_words j k hw) (by rw [h, h']; exact .nil) htwins.fresh
  refine ⟨fun n => ?_, htwins.ends_iff hL ha⟩
  obtain ⟨houtcome, hsession⟩ := htwins.run hL Fault.Alike.anywhere_eq n ha
  obtain ⟨T, hmachine⟩ := hsession.machine
  exact ⟨houtcome.anywhere_eq, hmachine.sink⟩

/-- A call fails on the second line of one text and on the only line of the other. -/
theorem failing_call_laid_out :
    let s : Session := ⟨.start .unlimited fun _ => .ofNat 0, 0⟩
    let wide := "fun f(n)\n{ return n + k; } // adds\nprint 7;\n\nprint f(2);"
    let narrow := "fun f(n){return n+k;}print 7;print f(2);"
    (s.run 9 wide).1.faults = [.run 2 (.undefinedVariable "k")] ∧
      (s.run 9 narrow).1.faults = [.run 1 (.undefinedVariable "k")] ∧
      (s.run 9 wide).1.anywhere = (s.run 9 narrow).1.anywhere ∧
      (s.run 9 wide).2.machine.sink = (s.run 9 narrow).2.machine.sink ∧ (s.Terminates wide ↔ s.Terminates narrow) := by
  have hwide : faultsOf (scan "fun f(n)\n{ return n + k; } // adds\nprint 7;\n\nprint f(2);") = [] := by decide +kernel
  have hnarrow : faultsOf (scan "fun f(n){return n+k;}print 7;print f(2);") = [] := by decide +kernel
  obtain ⟨hrun, hends⟩ := layout_does_not_matter .unlimited (fun _ => .ofNat 0) 0 0 hwide hnarrow (by decide +kernel)
  dsimp only at hrun hends ⊢
  exact ⟨by decide +kernel, by decide +kernel, (hrun 9).1, (hrun 9).2, hends⟩

end Session
end Scriptlet
