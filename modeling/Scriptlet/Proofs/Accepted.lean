import Mathlib
import Scriptlet.Proofs.Statements

/-!
# What the parser accepts

A token list is read without a fault exactly when the grammar derives it with no list past the limit.  Whatever the
grammar derives it derives with every `else` at the nearest open `if` (`Forms.exists_nearest`), and the statements read
are those of that derivation (`parse_of_nearest`).
-/
namespace Scriptlet

namespace Grammar

/-! ## Moving each `else` to the nearest open `if` -/

/-- An open statement can take an `else` at its end: the innermost open `if` takes it. -/
theorem Form.exists_attached (other : Word .elseWord) {no : Form .statement} (hn : no.ElseNearest) :
    ∀ d : Form .statement, d.isOpen = true → d.ElseNearest →
      ∃ d' : Form .statement, d'.yield = d.yield ++ other.1 :: no.yield ∧ d'.ElseNearest ∧
        (d.Limited → no.Limited → d'.Limited)
  | .expression _ _, ho, _ => by cases ho
  | .print _ _ _, ho, _ => by cases ho
  | .return _ _ _, ho, _ => by cases ho
  | .block _ _ _, ho, _ => by cases ho
  | .for word clauses body, ho, hd => by
    obtain ⟨body', hy, hn', hl⟩ := exists_attached other hn body ho hd
    exact ⟨.for word clauses body', by simp [Form.yield, hy], hn', fun h h' => ⟨h.1, hl h.2 h'⟩⟩
  | .if word condition yes, _, hd => by
    cases ho : yes.isOpen with
    | true =>
      obtain ⟨yes', hy, hn', hl⟩ := exists_attached other hn yes ho hd
      exact ⟨.if word condition yes', by simp [Form.yield, hy], hn', fun h h' => ⟨h.1, hl h.2 h'⟩⟩
    | false =>
      exact ⟨.ifElse word condition yes other no, by simp [Form.yield], ⟨ho, hd, hn⟩, fun h h' => ⟨h.1, h.2, h'⟩⟩
  | .ifElse word condition yes first no₁, ho, hd => by
    obtain ⟨no', hy, hn', hl⟩ := exists_attached other hn no₁ ho hd.2.2
    exact ⟨.ifElse word condition yes first no', by simp [Form.yield, hy], ⟨hd.1, hd.2.1, hn'⟩,
      fun h h' => ⟨h.1, h.2.1, hl h.2.2 h'⟩⟩
  | .while word condition body, ho, hd => by
    obtain ⟨body', hy, hn', hl⟩ := exists_attached other hn body ho hd
    exact ⟨.while word condition body', by simp [Form.yield, hy], hn', fun h h' => ⟨h.1, hl h.2 h'⟩⟩

mutual
theorem Form.exists_nearest {r : Rank} :
    ∀ d : Form r, ∃ d' : Form r, d'.yield = d.yield ∧ d'.ElseNearest ∧ (d.Limited → d'.Limited)
  | .function word header opening body closing => by
    obtain ⟨body', hy, hn, hl⟩ := Forms.exists_nearest body
    exact ⟨.function word header opening body' closing, by simp [Form.yield, hy], hn, fun h => ⟨h.1, hl h.2⟩⟩
  | .var form => ⟨.var form, rfl, trivial, id⟩
  | .statement form => by
    obtain ⟨form', hy, hn, hl⟩ := Form.exists_nearest form
    exact ⟨.statement form', hy, hn, hl⟩
  | .expression value semicolon => ⟨.expression value semicolon, rfl, trivial, id⟩
  | .for word clauses body => by
    obtain ⟨body', hy, hn, hl⟩ := Form.exists_nearest body
    exact ⟨.for word clauses body', by simp [Form.yield, hy], hn, fun h => ⟨h.1, hl h.2⟩⟩
  | .if word condition yes => by
    obtain ⟨yes', hy, hn, hl⟩ := Form.exists_nearest yes
    exact ⟨.if word condition yes', by simp [Form.yield, hy], hn, fun h => ⟨h.1, hl h.2⟩⟩
  | .ifElse word condition yes other no => by
    obtain ⟨yes', hy, hn, hl⟩ := Form.exists_nearest yes
    obtain ⟨no', hy', hn', hl'⟩ := Form.exists_nearest no
    cases ho : yes'.isOpen with
    | false =>
      exact ⟨.ifElse word condition yes' other no', by simp [Form.yield, hy, hy'], ⟨ho, hn, hn'⟩,
        fun h => ⟨h.1, hl h.2.1, hl' h.2.2⟩⟩
    | true =>
      -- the branch is open, so this `else` belongs inside it and the outer `if` keeps none
      obtain ⟨both, hyb, hnb, hlb⟩ := Form.exists_attached other hn' yes' ho hn
      exact ⟨.if word condition both, by simp [Form.yield, hyb, hy, hy'], hnb,
        fun h => ⟨h.1, hlb (hl h.2.1) (hl' h.2.2)⟩⟩
  | .print word value semicolon => ⟨.print word value semicolon, rfl, trivial, id⟩
  | .return word value semicolon => ⟨.return word value semicolon, rfl, trivial, id⟩
  | .while word condition body => by
    obtain ⟨body', hy, hn, hl⟩ := Form.exists_nearest body
    exact ⟨.while word condition body', by simp [Form.yield, hy], hn, fun h => ⟨h.1, hl h.2⟩⟩
  | .block opening body closing => by
    obtain ⟨body', hy, hn, hl⟩ := Forms.exists_nearest body
    exact ⟨.block opening body' closing, by simp [Form.yield, hy], hn, hl⟩

/-- **Whatever the grammar derives, it derives with every `else` at the nearest open `if`.** -/
theorem Forms.exists_nearest :
    ∀ d : Forms, ∃ d' : Forms, d'.yield = d.yield ∧ d'.ElseNearest ∧ (d.Limited → d'.Limited)
  | .nil => ⟨.nil, rfl, trivial, id⟩
  | .cons first rest => by
    obtain ⟨first', hy, hn, hl⟩ := Form.exists_nearest first
    obtain ⟨rest', hy', hn', hl'⟩ := Forms.exists_nearest rest
    exact ⟨.cons first' rest', by simp [Forms.yield, hy, hy'], ⟨hn, hn'⟩, fun h => ⟨hl h.1, hl' h.2⟩⟩
end

end Grammar

/-! ## A whole text -/

open Grammar
open Parse (Clean Grows Reads)

/-- The tokens that are parsed. -/
def parsedTokens (tokens : List Token) : List Token := tokens.takeWhile (·.kind ≠ .eof)

namespace Parse

/-- The rule for a text of `n` tokens. -/
def program (n : Nat) : Parse (List Stmt) := declarations .eof (declaration n (statement n) (body n)) n

theorem grows_program (n : Nat) : Grows (program n) := by
  obtain ⟨hs, hb⟩ := grows_statement_and_body n
  exact grows_declarations _ (grows_recovering (grows_declared n hs hb)) n

theorem reads_program (n : Nat) : Reads (program n) (forms .eof) n := by
  obtain ⟨hgs, hgb⟩ := grows_statement_and_body n
  obtain ⟨hs, hb⟩ := reads_statement_and_body n
  exact reads_declarations rfl (by decide) (grows_declared n hgs hgb) (reads_declared hgb (Nat.le_succ n) hs hb) n
    (Nat.le_refl n)

end Parse

/-- Where the parse of the tokens starts. -/
def startOf (fresh : Nat) (tokens : List Token) : Cursor where
  rest := parsedTokens tokens
  stop := (tokens.find? (·.kind = .eof)).getD (.atEnd ((tokens.getLast?.map Token.line).getD 1))
  fresh := fresh
  faults := []

theorem parse_eq (fresh : Nat) (tokens : List Token) : parse fresh tokens =
    let r := Parse.program (parsedTokens tokens).length (startOf fresh tokens)
    { statements := r.1.getD [], faults := r.2.faults, fresh := r.2.fresh } := rfl

/-- A text is read without a fault exactly when its rule reads cleanly. -/
theorem parse_faults_eq_nil_iff {fresh : Nat} {tokens : List Token} : (parse fresh tokens).faults = [] ↔
    ∃ ss c', Clean (Parse.program (parsedTokens tokens).length) (startOf fresh tokens) ss c' := by
  rw [parse_eq]
  obtain ⟨fs, hfs, hn⟩ := (Parse.grows_program (parsedTokens tokens).length).notes (startOf fresh tokens)
  rcases hp : Parse.program (parsedTokens tokens).length (startOf fresh tokens) with ⟨_ | ss, c'⟩
  · rw [hp] at hfs hn
    constructor
    · intro h
      have h : c'.faults = [] := h
      have hfs : c'.faults = fs := hfs
      exact absurd (hfs.symm.trans h) (hn rfl)
    · rintro ⟨ss, c', h, -⟩
      rw [hp] at h
      cases h
  · constructor
    · exact fun h => ⟨ss, c', hp, h⟩
    · rintro ⟨ss', c'', h, hf⟩
      rw [hp] at h
      cases h
      exact hf

/-- No end stands among the tokens that are parsed, so a derivation yields all of them. -/
theorem eq_nil_of_suits {tokens r : List Token} {d : Forms} (h : parsedTokens tokens = d.yield ++ r)
    (hf : (Parse.forms .eof).Suits d r) : r = [] := by
  rcases hf.2.2 with hr | ⟨t, us, rfl⟩
  · exact hr
  · have hmem : t.1 ∈ parsedTokens tokens := by simp [h]
    have := List.mem_takeWhile_imp hmem
    simp [t.kind_eq] at this

theorem clean_program {fresh : Nat} {tokens : List Token} {d : Forms} (hy : d.yield = parsedTokens tokens)
    (hl : d.Limited) (hn : d.ElseNearest) :
    Clean (Parse.program (parsedTokens tokens).length) (startOf fresh tokens) (d.build fresh).1
      ((startOf fresh tokens).moved [] (d.build fresh).2) :=
  (Parse.reads_program _).clean (d := d) (r := []) (Nat.le_refl _) (by simp [startOf, ← hy, Parse.forms])
    ⟨hl, hn, .inl rfl⟩

/-- **What a derivation with every `else` at the nearest open `if` stands for is what is read.** -/
theorem parse_of_nearest {fresh : Nat} {tokens : List Token} {d : Forms} (hy : d.yield = parsedTokens tokens)
    (hl : d.Limited) (hn : d.ElseNearest) :
    parse fresh tokens = { statements := (d.build fresh).1, faults := [], fresh := (d.build fresh).2 } := by
  rw [parse_eq, (clean_program hy hl hn).1]
  rfl

theorem exists_nearest_of_faults {fresh : Nat} {tokens : List Token} (h : (parse fresh tokens).faults = []) :
    ∃ d : Forms, d.yield = parsedTokens tokens ∧ d.Limited ∧ d.ElseNearest := by
  obtain ⟨ss, c', hc⟩ := parse_faults_eq_nil_iff.1 h
  obtain ⟨d, r, hr, hf, hd⟩ := (Parse.reads_program (parsedTokens tokens).length).derivation (Nat.le_refl _) hc
  have hr : parsedTokens tokens = Forms.yield d ++ r := hr
  have hnil : r = [] := eq_nil_of_suits hr hf
  rw [hnil, List.append_nil] at hr
  exact ⟨d, hr.symm, hf.1, hf.2.1⟩

/-- **The parser accepts exactly its grammar.**  It reads a token list without a fault exactly when the grammar derives
the tokens before the first end with no list past the limit.  It then gives the statements of the derivation in which
every `else` belongs to the nearest open `if`, down to the numbers of their nodes: there is such a derivation, and all
of them stand for the same statements. -/
theorem parse_accepts_exactly_grammar (fresh : Nat) (tokens : List Token) :
    ((parse fresh tokens).faults = [] ↔
        ∃ d : Forms, d.yield = tokens.takeWhile (·.kind ≠ .eof) ∧ d.Limited) ∧
      ((parse fresh tokens).faults = [] →
        (∃ d : Forms, d.yield = tokens.takeWhile (·.kind ≠ .eof) ∧ d.Limited ∧ d.ElseNearest) ∧
          ∀ d : Forms, d.yield = tokens.takeWhile (·.kind ≠ .eof) → d.Limited → d.ElseNearest →
            (parse fresh tokens).statements = (d.build fresh).1) := by
  refine ⟨⟨fun h => ?_, ?_⟩, fun h => ⟨exists_nearest_of_faults h, fun d hy hl hn => ?_⟩⟩
  · obtain ⟨d, hy, hl, -⟩ := exists_nearest_of_faults h
    exact ⟨d, hy, hl⟩
  · rintro ⟨d, hy, hl⟩
    obtain ⟨d', hy', hn, hl'⟩ := d.exists_nearest
    rw [parse_of_nearest (hy'.trans hy) (hl' hl) hn]
  · rw [parse_of_nearest hy hl hn]

end Scriptlet
