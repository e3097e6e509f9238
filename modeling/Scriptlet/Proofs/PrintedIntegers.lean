import Mathlib
import Scriptlet.Proofs.Accepted
import Scriptlet.Proofs.LimitedSinks
import Scriptlet.Proofs.NumberTexts
import Scriptlet.Proofs.Steps
import Scriptlet.Session

/-!
# Integers that are printed as written

A natural number up to `2 ^ 53` is its own number, and the text that is printed for it is the text it was written as
(`Session.integers_print_as_written`).  The statement `print` with a numeral is read as one tree (`readSource_print`),
for every numeral.
-/
namespace Scriptlet

/-! ## Reading -/

/-- The statement that prints the numeral. -/
def printText (ds : List Char) : String := "print " ++ String.ofList ds ++ ";"

def printTokens (ds : List Char) : List Token :=
  [⟨.printWord, "print", 1⟩, ⟨.number (.ofDigits ds []), String.ofList ds, 1⟩, ⟨.semicolon, ";", 1⟩]

section

variable {ds : List Char} (hne : ds ≠ []) (hd : ∀ d ∈ ds, d.isDigit = true)
include hne hd

/-- A semicolon ends a numeral. -/
theorem cut_numeral : ∃ c cs, ds ++ [';'] = c :: cs ∧ cut c cs = ⟨.token (.number (.ofDigits ds [])), ds, [';']⟩ := by
  obtain ⟨c, cs, rfl⟩ := List.exists_cons_of_ne_nil hne
  refine ⟨c, cs ++ [';'], rfl, ?_⟩
  have htake : (c :: cs).takeWhile isDigit = c :: cs := List.takeWhile_eq_self_iff.2 hd
  have hdrop : (c :: cs).dropWhile isDigit = [] := List.dropWhile_eq_nil_iff.2 hd
  obtain ⟨ht, hw⟩ := takeWhile_append_stop (p := isDigit) (d := ';') [] rfl (c :: cs)
  rw [List.cons_append, htake] at ht
  rw [List.cons_append, hdrop] at hw
  rw [cut_of_isDigit (hd c List.mem_cons_self), cutNumber, ht, hw]
  rfl

theorem scan_printText : scan (printText ds) = (printTokens ds).map .ok ++ [.ok (.atEnd 1)] := by
  obtain ⟨c, cs, hcs, hcut⟩ := cut_numeral hne hd
  have hlexeme : Lexeme "print".toList (some .printWord) := .reserved (by decide)
  have hprint : cut 'p' (['r', 'i', 'n', 't'] ++ ' ' :: (ds ++ [';'])) =
      ⟨.token .printWord, ['p', 'r', 'i', 'n', 't'], ' ' :: (ds ++ [';'])⟩ := hlexeme.cut_append rfl _
  have htext : (printText ds).toList = 'p' :: (['r', 'i', 'n', 't'] ++ ' ' :: (ds ++ [';'])) := by simp [printText]
  have hpieces : pieces (printText ds).toList = [⟨.token .printWord, ['p', 'r', 'i', 'n', 't'], ' ' :: (ds ++ [';'])⟩,
      ⟨.gap, [' '], ds ++ [';']⟩, ⟨.token (.number (.ofDigits ds [])), ds, [';']⟩, ⟨.token .semicolon, [';'], []⟩] := by
    rw [htext, pieces_cons, hprint, pieces_cons]
    change _ :: _ :: pieces (ds ++ [';']) = _
    rw [hcs, pieces_cons, hcut]
    rfl
  have hlines : ds.count '\n' = 0 := List.count_eq_zero.2 fun h => absurd (hd _ h) (by decide)
  have hall : newlines (printText ds).toList = 0 := by
    rw [htext]
    simp [newlines, hlines]
  rw [scan_eq, hall, sourceItems, hpieces]
  simp [itemsOf, Cut.item?, hlines, printTokens, newlines]

end

namespace Grammar

/-- A literal alone is an expression. -/
def Phrase.ofLiteral (t : Token) (v : Literal) (h : literalOf? t.kind = some v) : Phrase .assignment :=
  .operation
    (.chain (.chain (.chain (.chain (.chain (.chain (.unsigned (.call (.literal t v h) .done)) .done) .done) .done)
    .done) .done) .done)

theorem Phrase.build_ofLiteral (t : Token) (v : Literal) (h : literalOf? t.kind = some v) (k : Nat) :
    (Phrase.ofLiteral t v h).yield = [t] ∧ (Phrase.ofLiteral t v h).build k = (.literal v, k) ∧
      (Phrase.ofLiteral t v h).Limited := by
  refine ⟨rfl, rfl, ?_⟩
  simp [ofLiteral, Phrase.Limited, Tail.Limited, Lists.Limited]

end Grammar

open Grammar in
/-- The statement is read as a tree that prints the number, whatever the numeral. -/
theorem readSource_print (fresh : Nat) {ds : List Char} (hne : ds ≠ []) (hd : ∀ d ∈ ds, d.isDigit = true) :
    readSource fresh (printText ds) =
      { statements := [.print (.literal (.number (.ofDigits ds [])))], faults := [], fresh } := by
  have hscan := scan_printText hne hd
  have htokens : tokensOf (scan (printText ds)) = printTokens ds ++ [.atEnd 1] := by rw [hscan]; rfl
  have hfaults : faultsOf (scan (printText ds)) = [] := by rw [hscan]; rfl
  let value := Phrase.ofLiteral ⟨.number (.ofDigits ds []), String.ofList ds, 1⟩ (.number (.ofDigits ds [])) rfl
  let form : Forms := .cons (.statement (.print ⟨⟨.printWord, "print", 1⟩, rfl⟩ value ⟨⟨.semicolon, ";", 1⟩, rfl⟩)) .nil
  have hvalue := Phrase.build_ofLiteral ⟨.number (.ofDigits ds []), String.ofList ds, 1⟩ _ rfl fresh
  have hyield : form.yield = parsedTokens (printTokens ds ++ [.atEnd 1]) := rfl
  have hparse : parse fresh (printTokens ds ++ [.atEnd 1]) = ⟨(form.build fresh).1, [], (form.build fresh).2⟩ :=
    parse_of_nearest hyield ⟨hvalue.2.2, trivial⟩ ⟨trivial, trivial⟩
  rw [readSource, htokens, hfaults, hparse]
  rfl

/-! ## Running -/

/-- What printing a number does to a sink that takes everything. -/
theorem execAll_print (invoke : Invoke) (rounds : Nat) (x : Number) {m : Machine} (h : m.sink.limit = none) :
    Stmt.execAll invoke rounds [.print (.literal (.number x))] m =
      (.value (), { m with sink := m.sink.grown (x.display ++ "\n").toUTF8 }) := by
  have hprint : Run.print x.display m = (.value (), { m with sink := m.sink.grown (x.display ++ "\n").toUTF8 }) := by
    unfold Run.print
    rw [Sink.write_unlimited h]
    rfl
  change (Run.print x.display >>= fun _ => pure ()) m = _
  rw [Run.bind_of_value hprint]
  rfl

namespace Session

/-- Running the statement completes and prints the number, on every machine whose sink takes everything. -/
theorem run_print (s : Session) (n : Nat) (hl : s.machine.sink.limit = none) (hf : s.machine.sink.flushable = true)
    {ds : List Char} (hne : ds ≠ []) (hd : ∀ d ∈ ds, d.isDigit = true) :
    (s.run n (printText ds)).1 = .completed ∧
      (s.run n (printText ds)).2.machine.sink.bytes =
        s.machine.sink.bytes ++ ((Number.ofDigits ds []).display ++ "\n").toUTF8 := by
  have hanalyze : analyze s.fresh (printText ds) =
      ⟨[.print (.literal (.number (.ofDigits ds [])))], [], [], s.fresh⟩ := by
    rw [analyze, readSource_print s.fresh hne hd]
    rfl
  have haccepts : (analyze s.fresh (printText ds)).faults.isEmpty = true := by rw [hanalyze]; rfl
  rw [run, if_pos haccepts]
  simp only [interpret_eq, hanalyze]
  rw [execAll_print (m := { s.machine with bindings := s.machine.bindings.add [] }) _ _ _ hl]
  simp [Sink.grown, hf, Signal.outcome]

end Session

/-! ## Numbers that are exact -/

namespace Number

variable {s m n : Nat}

/-- A natural number that some pattern has as its value is the value of the number nearest to it. -/
theorem wholePart_nearest (hn : Normal s m) (hlt : s * 2 ^ 52 + m < infinityBits) (h : m * pow2 s = n * unitsPerOne) :
    (nearest n 1).isIntegral = true ∧ (nearest n 1).wholePart = n := by
  have hnear : Near s m (n * unitsPerOne) 1 := by
    rw [← h, pow2_eq, near_iff, Nat.mul_one]
    have hpos : 0 < 2 ^ s := Nat.two_pow_pos s
    have hhalf := le_halfBelow s m (2 ^ s)
    generalize m * 2 ^ s = a
    omega
  have hbits : (nearest n 1).magnitude = s * 2 ^ 52 + m := by
    rw [magnitude_nearest, nearestBits_eq, hnear.patternOf_eq Nat.one_pos hn]
    exact Nat.min_eq_left (Nat.le_of_lt hlt)
  obtain ⟨hscale, hmantissa⟩ := (nearest n 1).normal.unique hn ((magnitude_eq _).symm.trans hbits)
  have hunits : (nearest n 1).units = n * unitsPerOne := by rw [units, hscale, hmantissa, h]
  have hfinite : (nearest n 1).isFinite = true := by
    rw [isFinite, hbits]
    exact decide_eq_true hlt
  constructor
  · rw [isIntegral, hfinite, hunits, Nat.mul_mod_left]
    rfl
  · rw [wholePart, hunits]
    exact Nat.mul_div_cancel _ unitsPerOne_pos

theorem unitsPerOne_eq {k : Nat} (h : k = 1074) : unitsPerOne = 2 ^ k := by
  rw [unitsPerOne, ← h]
  exact pow2_eq k

/-- Up to `2 ^ 53` every natural number is the value of a pattern. -/
theorem exists_normal (hle : n ≤ 2 ^ 53) :
    ∃ s m, Normal s m ∧ s * 2 ^ 52 + m < infinityBits ∧ m * pow2 s = n * unitsPerOne := by
  have hinfinity : infinityBits = 2047 * 2 ^ 52 := rfl
  rcases Nat.eq_zero_or_pos n with rfl | hpos
  · exact ⟨0, 0, ⟨by decide, by decide⟩, by decide, by simp⟩
  · rcases Nat.lt_or_eq_of_le hle with hlt | rfl
    · have hlog : n.log2 ≤ 52 := Nat.le_of_lt_succ ((Nat.log2_lt hpos.ne').2 hlt)
      have hlow := Nat.log2_self_le hpos.ne'
      have hhigh := Nat.lt_log2_self (n := n)
      have hscale : 52 - n.log2 + (1022 + n.log2) = 1074 := by omega
      have hm : n * 2 ^ (52 - n.log2) < 2 ^ 53 := by
        calc n * 2 ^ (52 - n.log2) < 2 ^ (n.log2 + 1) * 2 ^ (52 - n.log2) :=
              Nat.mul_lt_mul_of_pos_right hhigh (Nat.two_pow_pos _)
          _ = 2 ^ 53 := by rw [← Nat.pow_add]; congr 1; omega
      refine ⟨1022 + n.log2, n * 2 ^ (52 - n.log2), ⟨hm, fun _ => ?_⟩, ?_, ?_⟩
      · calc 2 ^ 52 = 2 ^ n.log2 * 2 ^ (52 - n.log2) := by rw [← Nat.pow_add]; congr 1; omega
          _ ≤ n * 2 ^ (52 - n.log2) := Nat.mul_le_mul_right _ hlow
      · rw [hinfinity]
        omega
      · rw [unitsPerOne_eq hscale, pow2_eq, Nat.mul_assoc, ← Nat.pow_add]
    · -- `2 ^ 53` itself has the smallest mantissa of the next scale.
      obtain ⟨k, hk⟩ : ∃ k, k = 1074 := ⟨_, rfl⟩
      refine ⟨k + 1, 2 ^ 52, ⟨by decide, fun _ => le_rfl⟩, ?_, ?_⟩
      · rw [hinfinity]
        omega
      · rw [unitsPerOne_eq hk, pow2_eq, Nat.pow_succ 2 k, Nat.mul_comm (2 ^ k) 2, ← Nat.mul_assoc,
          show 2 ^ 52 * 2 = 2 ^ 53 from rfl]

theorem wholePart_ofDigits {ds : List Char} (h : digitsValue ds ≤ 2 ^ 53) :
    (ofDigits ds []).isIntegral = true ∧ (ofDigits ds []).wholePart = digitsValue ds := by
  obtain ⟨s, m, hn, hlt, hvalue⟩ := exists_normal h
  have hofDigits : ofDigits ds [] = nearest (digitsValue ds) 1 := by
    rw [ofDigits, List.append_nil]
    rfl
  rw [hofDigits]
  exact wholePart_nearest hn hlt hvalue

end Number

namespace Session

/-- **Integers are printed as they are written.**  An integral number up to `2 ^ 53` is shown by the numeral of its
absolute value, behind a sign if it is negative, and the general text of numbers is the same: where one way to show
numbers gives over to the other cannot be seen.  So the statement that prints a numeral up to `2 ^ 53` writes this very
numeral and a newline, in every session and whatever the bound, as long as the sink takes all that is written. -/
theorem integers_print_as_written :
    (∀ x : Number, x.isIntegral = true → x.wholePart ≤ 2 ^ 53 →
      ∃ ds, Numeral ds ∧ digitsValue ds = x.wholePart ∧
        (Value.number x).display = (if x.isNegative then "-" else "") ++ String.ofList ds ∧
        x.plain = (if x.isNegative then "-" else "") ++ String.ofList ds) ∧
    (∀ ds, Numeral ds → digitsValue ds ≤ 2 ^ 53 → ∀ (s : Session) (bound : Nat),
      s.machine.sink.limit = none → s.machine.sink.flushable = true →
        (s.run bound (printText ds)).1 = .completed ∧
        (s.run bound (printText ds)).2.machine.sink.bytes =
          s.machine.sink.bytes ++ (String.ofList ds ++ "\n").toUTF8) := by
  constructor
  · intro x hx hle
    obtain ⟨hdisplay, hplain⟩ := Number.display_of_isIntegral hx hle
    exact ⟨Nat.toDigits 10 x.wholePart, numeral_toDigits _, digitsValue_toDigits _, hdisplay, hplain⟩
  · intro ds hds hle s bound hl hf
    obtain ⟨hx, hwhole⟩ := Number.wholePart_ofDigits hle
    have hsign : (Number.ofDigits ds []).sign = "" := Number.sign_of_not_negative (Number.isNegative_nearest _ _)
    have hdisplay : (Number.ofDigits ds []).display = String.ofList ds := by
      rw [(Number.display_of_isIntegral hx (hwhole.trans_le hle)).1, hwhole, digitsText, ← hds.eq_toDigits,
        hsign]
      exact String.empty_append
    rw [← hdisplay]
    exact run_print s bound hl hf hds.ne_nil hds.digits

/-- `2 ^ 53` is printed as written in a fresh session, and negative zero is shown with its sign. -/
theorem largest_and_negative_zero_print :
    (Session.run 0 (printText "9007199254740992".toList) (.start .unlimited fun _ => .ofNat 0)).2.machine.sink.bytes =
      "9007199254740992\n".toUTF8 ∧
    ∃ ds, digitsValue ds = 0 ∧ Numeral ds ∧
      (Value.number (.ofBits 0x8000000000000000)).display = "-" ++ String.ofList ds := by
  constructor
  · have hds : Numeral "9007199254740992".toList := ⟨by simp, by simp, by simp⟩
    rw [(integers_print_as_written.2 _ hds (by decide +kernel) (.start .unlimited fun _ => .ofNat 0) 0 rfl rfl).2]
    decide +kernel
  · have hnegative : (Number.ofBits 0x8000000000000000).isNegative = true := by decide +kernel
    have hwhole : (Number.ofBits 0x8000000000000000).wholePart = 0 := by decide +kernel
    obtain ⟨ds, hds, hvalue, hdisplay, -⟩ :=
      integers_print_as_written.1 (.ofBits 0x8000000000000000) (by decide +kernel) (by decide +kernel)
    rw [hnegative] at hdisplay
    exact ⟨ds, hvalue.trans hwhole, hds, hdisplay⟩

end Session
end Scriptlet
