import Mathlib
import Scriptlet.Proofs.Agreement
import Scriptlet.Proofs.Pieces
import Scriptlet.Proofs.Rereading

/-!
# Two texts in one

The analysis of two texts with a newline between them.  The statements of the second follow those of the first, further
down and otherwise the same, and so do the entries for the binding table (`analyze_append_newline`): a token does not
go on behind the newline, a declaration that is complete cannot take up what follows, and no scope is open at the top
level.
-/
namespace Scriptlet

open Grammar

/-! ## Derivations -/

namespace Grammar.Forms

def append : Forms → Forms → Forms
  | .nil, e => e
  | .cons first rest, e => .cons first (rest.append e)

theorem yield_append : ∀ d e : Forms, (d.append e).yield = d.yield ++ e.yield
  | .nil, _ => rfl
  | .cons first rest, e => by rw [append, yield, yield, yield_append rest e, List.append_assoc]

theorem Limited.append : ∀ {d e : Forms}, d.Limited → e.Limited → (d.append e).Limited
  | .nil, _, _, he => he
  | .cons _ _, _, hd, he => ⟨hd.1, Limited.append hd.2 he⟩

theorem ElseNearest.append : ∀ {d e : Forms}, d.ElseNearest → e.ElseNearest → (d.append e).ElseNearest
  | .nil, _, _, he => he
  | .cons _ _, _, hd, he => ⟨hd.1, ElseNearest.append hd.2 he⟩

theorem build_append : ∀ (d e : Forms) (k : Nat), (d.append e).build k =
    ((d.build k).1 ++ (e.build (d.build k).2).1, (e.build (d.build k).2).2)
  | .nil, _, _ => rfl
  | .cons first rest, e, k => by
    dsimp only [append, build]
    rw [build_append rest e]
    rfl

end Grammar.Forms

/-- **Tokens behind tokens that are read without a fault** are read as on their own, their nodes numbered on. -/
theorem parse_append {k : Nat} {tokens ts us : List Token}
    (h : parsedTokens tokens = parsedTokens ts ++ parsedTokens us)
    (ht : (parse k ts).faults = []) (hu : (parse (parse k ts).fresh us).faults = []) :
    parse k tokens = { statements := (parse k ts).statements ++ (parse (parse k ts).fresh us).statements, faults := [],
                       fresh := (parse (parse k ts).fresh us).fresh } := by
  obtain ⟨d, hdy, hdl, hdn⟩ := exists_nearest_of_faults ht
  obtain ⟨e, hey, hel, hen⟩ := exists_nearest_of_faults hu
  have hy : (d.append e).yield = parsedTokens tokens := by rw [d.yield_append, hdy, hey, h]
  rw [parse_of_nearest hy (hdl.append hel) (hdn.append hen), parse_of_nearest hey hel hen, parse_of_nearest hdy hdl hdn,
    d.build_append]

/-! ## Binding -/

theorem Stmt.declare_nil : ∀ s : Stmt, s.declare [] = []
  | .block _ => rfl
  | .expression _ => rfl
  | .function _ _ _ => rfl
  | .conditional _ yes none => yes.declare_nil
  | .conditional _ yes (some no) => by rw [Stmt.declare, yes.declare_nil, no.declare_nil]
  | .print _ => rfl
  | .return _ _ => rfl
  | .var _ _ => rfl
  | .while _ body => body.declare_nil

theorem resolve_append (ts : List Stmt) : ∀ ss : List Stmt, resolve (ss ++ ts) =
    ⟨(resolve ss).entries ++ (resolve ts).entries, (resolve ss).faults ++ (resolve ts).faults⟩
  | [] => rfl
  | s :: ss => by
    have ih := resolve_append ts ss
    unfold resolve at ih ⊢
    rw [List.cons_append, Stmt.findingsAll, Stmt.findingsAll, s.declare_nil, ih]
    simp only [HAppend.hAppend, Append.append]
    simp

/-! ## Tokens further down -/

namespace Likeness

/-- A token of the text stands for the one so many lines further down, and every number for itself. -/
def moved (down : Nat) (source : String) : Likeness where
  token t t' := t ∈ tokensOf (scan source) ∧ t' = t.down down
  number := Eq
  kind := by
    rintro t _ ⟨-, rfl⟩
    rfl
  lexeme := by
    rintro t _ ⟨-, rfl⟩
    rfl

/-- A token stands for itself, and numbers do not matter. -/
def unnumbered : Likeness where
  token := Eq
  number _ _ := True
  kind h := h ▸ rfl
  lexeme h := h ▸ rfl

end Likeness

theorem parsedTokens_scan (source : String) :
    parsedTokens (tokensOf (scan source)) = tokensOf (sourceItems source) := by
  rw [parsedTokens, tokensOf_scan, List.takeWhile_append_of_pos fun t ht => by simpa using kind_ne_eof ht]
  exact List.append_nil _

theorem parsedTokens_down (k : Nat) (tokens : List Token) :
    parsedTokens (tokens.map (Token.down k)) = (parsedTokens tokens).map (Token.down k) := by
  unfold parsedTokens
  rw [List.takeWhile_map]
  rfl

theorem startOf_moved (k down : Nat) (source : String) : (startOf k (tokensOf (scan source))).Alike (.moved down source)
    (startOf k ((tokensOf (scan source)).map (Token.down down))) := by
  refine ⟨?_, ?_, fun i => rfl, .nil⟩
  · change List.Forall₂ _ (parsedTokens _) (parsedTokens _)
    rw [parsedTokens_down, List.forall₂_map_right_iff, List.forall₂_same]
    exact fun t ht => ⟨(List.takeWhile_sublist _).subset ht, rfl⟩
  · obtain ⟨t, ht⟩ : ∃ t, (tokensOf (scan source)).find? (·.kind = .eof) = some t := by
      rw [← Option.isSome_iff_exists, List.find?_isSome, tokensOf_scan]
      exact ⟨_, List.mem_append_right _ (List.mem_singleton_self _), rfl⟩
    have ht' : ((tokensOf (scan source)).map (Token.down down)).find? (·.kind = .eof) = some (t.down down) := by
      rw [List.find?_map]
      exact congrArg (Option.map (Token.down down)) ht
    simp only [startOf, ht, ht', Option.getD_some]
    exact ⟨List.mem_of_find?_eq_some ht, rfl⟩

/-! ## Analysis -/

theorem analyze_faults_eq_nil_iff {k : Nat} {source : String} : (analyze k source).faults = [] ↔
    faultsOf (scan source) = [] ∧ (parse k (tokensOf (scan source))).faults = [] ∧
      (resolve (parse k (tokensOf (scan source))).statements).faults = [] := by
  simp only [analyze, readSource, List.append_eq_nil_iff, and_assoc]

theorem eq_nil_of_alike {L : Likeness} {fs fs' : List Fault} (h : List.Forall₂ (Fault.Alike L) fs fs') (hf : fs = []) :
    fs' = [] := by
  subst hf
  cases h
  rfl

/-- Whether a text is accepted does not depend on how its nodes are numbered. -/
theorem accepted_of_accepted {k : Nat} {source : String} (h : (analyze k source).faults = []) (k' : Nat) :
    (analyze k' source).faults = [] := by
  rw [analyze_faults_eq_nil_iff] at h ⊢
  obtain ⟨hl, hp, hr⟩ := h
  have hs : (startOf k (tokensOf (scan source))).Alike .unnumbered (startOf k' (tokensOf (scan source))) :=
    ⟨List.forall₂_same.2 fun _ _ => rfl, rfl, fun _ => trivial, .nil⟩
  obtain ⟨hss, hfs, -⟩ := parse_alike hs
  exact ⟨hl, eq_nil_of_alike hfs hp, eq_nil_of_alike (resolve_alike hss).faults hr⟩

theorem entries_eq_of_alike {down : Nat} {source : String} {f f' : Findings} (h : f.Alike (.moved down source) f') :
    f.entries = f'.entries := by
  refine List.forall₂_eq_eq_eq ▸ h.entries.imp ?_
  rintro ⟨i, d⟩ ⟨i', d'⟩ ⟨hi, hd⟩
  exact Prod.ext hi hd

/-- **The analysis of two texts in one** is that of the first, followed by that of the second further down. -/
theorem analyze_append_newline {k : Nat} {s t : String} (hs : (analyze k s).faults = [])
    (ht : (analyze (analyze k s).fresh t).faults = []) : ∃ below : List Stmt,
    Stmt.AllAlike (.moved (linesOver s) t) (analyze (analyze k s).fresh t).statements below ∧
      analyze k (s ++ "\n" ++ t) =
        { statements := (analyze k s).statements ++ below
          entries := (analyze k s).entries ++ (analyze (analyze k s).fresh t).entries
          faults := []
          fresh := (analyze (analyze k s).fresh t).fresh } := by
  rw [analyze_faults_eq_nil_iff] at hs ht
  rw [analyze_fresh] at ht
  simp only [analyze, readSource]
  obtain ⟨hsl, hsp, hsr⟩ := hs
  obtain ⟨htl, htp, htr⟩ := ht
  obtain ⟨hss, hfs, hn⟩ := parse_alike (startOf_moved (parse k (tokensOf (scan s))).fresh (linesOver s) t)
  have hitems := sourceItems_append_newline (terminated_of_faults hsl) t
  have htokens : parsedTokens (tokensOf (scan (s ++ "\n" ++ t))) =
      parsedTokens (tokensOf (scan s)) ++ parsedTokens ((tokensOf (scan t)).map (Token.down (linesOver s))) := by
    rw [parsedTokens_down, parsedTokens_scan, parsedTokens_scan, parsedTokens_scan, hitems, ← tokensOf_down]
    exact List.filterMap_append
  have hlex : faultsOf (scan (s ++ "\n" ++ t)) = [] := by
    rw [faultsOf_scan] at hsl htl ⊢
    rw [hitems, faultsOf, List.filterMap_append]
    exact List.append_eq_nil_iff.2 ⟨hsl, (faultsOf_down _ _).trans (by rw [htl]; rfl)⟩
  rw [parse_append htokens hsp (eq_nil_of_alike hfs htp), hlex, resolve_append]
  clear htokens hlex hitems
  generalize parse k (tokensOf (scan s)) = first at *
  generalize parse first.fresh ((tokensOf (scan t)).map (Token.down (linesOver s))) = below at *
  generalize parse first.fresh (tokensOf (scan t)) = second at *
  have hb := resolve_alike hss
  have hn : second.fresh = below.fresh := hn 0
  refine ⟨below.statements, hss, ?_⟩
  rw [hsr, eq_nil_of_alike hb.faults htr, entries_eq_of_alike hb, hn]
  rfl

end Scriptlet
