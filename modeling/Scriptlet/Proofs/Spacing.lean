import Mathlib
import Scriptlet.Proofs.Lexemes

/-!
# Tokens with spaces between them

A blank ends every token, so a lexeme with a space behind it is cut off whole (`Lexeme.cut_append`), and a text made of
the lexemes of some tokens, a space behind each, has these tokens and no others (`itemsOf_spaced`).  The tokens of any
text are lexemes; written with single spaces between them they are read again (`rescan_spaced`).
-/
namespace Scriptlet

/-! ## One token -/

/-- **A blank ends a lexeme.** -/
theorem Lexeme.cut_append {c : Char} {cs : List Char} {kind : Kind} (h : Lexeme (c :: cs) (some kind)) {b : Char}
    (hb : isBlank b = true) (ds : List Char) : cut c (cs ++ b :: ds) = ⟨.token kind, c :: cs, b :: ds⟩ := by
  obtain ⟨hchars, hpiece⟩ := h.cut_eq
  have hrest : (cut c cs).rest = [] := by
    have hall := cut_chars_append_rest c cs
    rw [hchars] at hall
    simpa using hall
  have hclosed : (cut c cs).piece ≠ .unclosed := by simp [hpiece, Piece.ofKind]
  have hgap : (cut c cs).piece = .gap → b = '\n' := by simp [hpiece, Piece.ofKind]
  rw [cut_append_blank hb hclosed hgap, Cut.followedBy, hchars, hpiece, hrest]
  rfl

/-- The characters of every token of a text are a lexeme of its kind. -/
theorem lexeme_of_token {source : String} {t : Token} (h : t ∈ tokensOf (sourceItems source)) :
    Lexeme t.lexeme.toList (some t.kind) := by
  obtain ⟨c, cs, hpiece, hlexeme⟩ := exists_cut_of_token h
  rw [hlexeme, String.toList_ofList]
  rcases cut_cases c cs with ⟨kind, hkind, hlex⟩ | ⟨-, -, hcut⟩ | ⟨-, hcut⟩
  · rw [hpiece] at hkind
    cases kind with
    | none => cases hkind
    | some kind =>
      cases hkind
      exact hlex
  · rw [hcut] at hpiece
    cases hpiece
  · rw [hcut] at hpiece
    cases hpiece

/-! ## All tokens -/

/-- The lexemes of the tokens, each with a space behind it. -/
def spaced (ts : List Token) : List Char := ts.flatMap fun t => t.lexeme.toList ++ [' ']

/-- The tokens on the lines that their own newlines give them. -/
def relined (line : Nat) : List Token → List Token
  | [] => []
  | t :: ts => { t with line := line + newlines t.lexeme.toList } :: relined (line + newlines t.lexeme.toList) ts

/-- **Tokens that are lexemes are read again** where there is a space behind each. -/
theorem itemsOf_spaced : ∀ (line : Nat) {ts : List Token}, (∀ t ∈ ts, Lexeme t.lexeme.toList (some t.kind)) →
    itemsOf line (pieces (spaced ts)) = (relined line ts).map .ok
  | _, [], _ => rfl
  | line, t :: ts, h => by
    have hlex := h t List.mem_cons_self
    have ih := itemsOf_spaced (line + newlines t.lexeme.toList) fun u hu => h u (List.mem_cons_of_mem _ hu)
    obtain ⟨c, cs, hcs⟩ := List.exists_cons_of_ne_nil hlex.ne_nil
    rw [hcs] at hlex
    have htext : spaced (t :: ts) = c :: (cs ++ ' ' :: spaced ts) := by simp [spaced, hcs]
    have hspace : pieces (' ' :: spaced ts) = ⟨.gap, [' '], spaced ts⟩ :: pieces (spaced ts) := pieces_cons _ _
    rw [htext, pieces_cons, hlex.cut_append rfl, hspace, relined, List.map_cons, ← ih, ← hcs]
    change Except.ok (Token.mk t.kind (String.ofList t.lexeme.toList) _) :: _ = _
    rw [String.ofList_toList]
    rfl

/-- All of a token but its line. -/
def Token.content (t : Token) : Kind × String × Option Literal := (t.kind, t.lexeme, t.literal?)

theorem content_relined : ∀ (line : Nat) (ts : List Token), (relined line ts).map Token.content = ts.map Token.content
  | _, [] => rfl
  | line, t :: ts => by
    rw [relined, List.map_cons, List.map_cons, content_relined]
    rfl

theorem content_atEnd (line : Nat) : (Token.atEnd line).content = (.eof, "", none) := rfl

/-! ## Texts -/

/-- The tokens of a text, written with single spaces between them. -/
def respaced (source : String) : String := " ".intercalate ((tokensOf (scan source)).map Token.lexeme)

/-- The end of a text has no characters, so the last token in front of it has a space behind it too. -/
theorem toList_respaced (source : String) : (respaced source).toList = spaced (tokensOf (sourceItems source)) := by
  rw [respaced, tokensOf_scan, String.toList_intercalate]
  generalize tokensOf (sourceItems source) = ts
  induction ts with
  | nil => rfl
  | cons t ts ih =>
    rw [List.cons_append, List.map_cons, List.map_cons, List.intercalate_cons_of_ne_nil (by simp), ih]
    simp [spaced]

/-- **The tokens of a text are read again from their lexemes** with single spaces between them, in order, with the same
kinds, lexemes and literals, and without a fault, whatever faults the text has. -/
theorem rescan_spaced (source : String) :
    faultsOf (scan (respaced source)) = [] ∧
      (tokensOf (scan (respaced source))).map Token.content = (tokensOf (scan source)).map Token.content := by
  have hitems : sourceItems (respaced source) = (relined 1 (tokensOf (sourceItems source))).map .ok := by
    rw [sourceItems, toList_respaced, itemsOf_spaced 1 fun t => lexeme_of_token]
  have htokens : tokensOf (sourceItems (respaced source)) = relined 1 (tokensOf (sourceItems source)) := by
    rw [hitems, tokensOf, List.filterMap_map]
    exact List.filterMap_some
  refine ⟨?_, ?_⟩
  · rw [faultsOf_scan, hitems, faultsOf, List.filterMap_map]
    exact List.filterMap_none _
  · simp only [tokensOf_scan, htokens, List.map_append, content_relined, List.map_cons, content_atEnd, List.map_nil]

-- A comment and a character that begins nothing are left out; what was written together is not.
example : respaced "a?1.//c\n!=/\"x\ny\"" = "a 1 . != / \"x\ny\" " := by decide +kernel

end Scriptlet
