import Mathlib
import Scriptlet.Proofs.JsonTexts
import Scriptlet.Proofs.Origins
import Scriptlet.Tree.Json

/-!
# The JSON text determines the tree

The JSON text of statements that were read loses nothing of them, numbers of nodes and lines of tokens included
(`statements_eq_of_compact_eq`).  A document shows a number that is not finite as null, and the only such number that a
text can give is the positive infinity (`Number.Read.shown_inj`); everything else is told apart by the names of nodes
and fields.
-/
namespace Scriptlet

open Json (shown shownItems shownFields Solid SolidItems)

/-! ## Numbers of a text -/

/-- The number is the nearest to a quotient, as every number of a text is. -/
def Number.Read (x : Number) : Prop := ∃ num den, Number.nearest num den = x

namespace Number.Read

variable {x y : Number}

theorem isNegative (hx : x.Read) : x.isNegative = false := by
  obtain ⟨num, den, rfl⟩ := hx
  exact isNegative_nearest num den

theorem solid_shown (hx : x.Read) : (Json.number x).shown.Solid := by
  rw [shown]
  split
  · next h => exact ⟨h, hx.isNegative⟩
  · trivial

/-- A number that is not finite is the positive infinity. -/
theorem magnitude_of_not_finite (hx : x.Read) (h : x.isFinite = false) : x.magnitude = infinityBits := by
  obtain ⟨num, den, rfl⟩ := hx
  have hnan := isNaN_nearest num den
  simp only [isNaN, isFinite, decide_eq_false_iff_not, Nat.not_lt] at hnan h
  exact Nat.le_antisymm hnan h

theorem shown_inj (hx : x.Read) (hy : y.Read) (h : (Json.number x).shown = (Json.number y).shown) : x = y := by
  cases hfx : x.isFinite <;> cases hfy : y.isFinite
  · have hmagnitude := (hx.magnitude_of_not_finite hfx).trans (hy.magnitude_of_not_finite hfy).symm
    exact eq_of_magnitude hx.isNegative hy.isNegative hmagnitude
  · simp [shown, hfx, hfy] at h
  · simp [shown, hfx, hfy] at h
  · simpa [shown, hfx, hfy] using h

end Number.Read

/-! ## Kinds, tokens and literals -/

/-- The kinds that carry no value. -/
def Kind.valueless : List Kind := [
  .leftParen, .rightParen, .leftBrace, .rightBrace, .comma, .dot, .minus, .plus, .semicolon, .slash, .star, .bang,
  .bangEqual, .equal, .equalEqual, .greater, .greaterEqual, .less, .lessEqual, .identifier, .andWord, .classWord,
  .elseWord, .falseWord, .funWord, .forWord, .ifWord, .nilWord, .orWord, .printWord, .returnWord, .superWord, .thisWord,
  .trueWord, .varWord, .whileWord, .eof]

namespace Kind

/-- The kind of this name that carries no value. -/
def ofName (name : String) : Kind := (valueless.find? (·.name = name)).getD .eof

/-- A kind carries a value, or is shown by its name, which no other kind has. -/
theorem toJson_cases (k : Kind) :
    (∃ s, k = .string s) ∨ (∃ x, k = .number x) ∨ (k.toJson = .text k.name ∧ ofName k.name = k) := by
  cases k with
  | string s => exact .inl ⟨s, rfl⟩
  | number x => exact .inr (.inl ⟨x, rfl⟩)
  | _ => exact .inr (.inr ⟨rfl, by decide +kernel⟩)

/-- A kind is known by its document. -/
theorem toJson_inj {k k' : Kind} (hk : ∀ x, k = .number x → x.Read) (hk' : ∀ x, k' = .number x → x.Read)
    (h : k.toJson.shown = k'.toJson.shown) : k = k' := by
  rcases k.toJson_cases with ⟨s, rfl⟩ | ⟨x, rfl⟩ | ⟨htext, hname⟩ <;>
    rcases k'.toJson_cases with ⟨s', rfl⟩ | ⟨x', rfl⟩ | ⟨htext', hname'⟩
  · simpa [toJson, node, shown, shownFields] using h
  · simp [toJson, node, shown, shownFields] at h
  · rw [htext'] at h
    simp [toJson, node, shown] at h
  · simp [toJson, node, shown, shownFields] at h
  · have hvalue : (Json.number x).shown = (Json.number x').shown := by simpa [toJson, node, shown, shownFields] using h
    rw [(hk x rfl).shown_inj (hk' x' rfl) hvalue]
  · rw [htext'] at h
    simp [toJson, node, shown] at h
  · rw [htext] at h
    simp [toJson, node, shown] at h
  · rw [htext] at h
    simp [toJson, node, shown] at h
  · rw [htext, htext'] at h
    rw [← hname, ← hname', Json.text.inj h]

theorem solid_toJson {k : Kind} (hk : ∀ x, k = .number x → x.Read) : k.toJson.shown.Solid := by
  rcases k.toJson_cases with ⟨s, rfl⟩ | ⟨x, rfl⟩ | ⟨htext, -⟩
  · exact ⟨trivial, trivial⟩
  · exact ⟨(hk x rfl).solid_shown, trivial⟩
  · rw [htext]
    trivial

end Kind

namespace Token.Written

variable {t t' : Token}

theorem read (h : t.Written) (x : Number) (hx : t.kind = .number x) : x.Read := by
  rw [Written, hx] at h
  exact h.exists_nearest

theorem toJson_inj (h : t.Written) (h' : t'.Written) (heq : t.toJson.shown = t'.toJson.shown) : t = t' := by
  simp only [Token.toJson, shown, shownFields, Json.object.injEq, List.cons.injEq, Prod.mk.injEq, Json.text.injEq,
    Json.natural.injEq, true_and, and_true] at heq
  obtain ⟨hkind, hlexeme, hline⟩ := heq
  have hkind := Kind.toJson_inj h.read h'.read hkind
  cases t
  cases t'
  simp_all

theorem solid_toJson (h : t.Written) : t.toJson.shown.Solid := ⟨Kind.solid_toJson h.read, trivial, trivial, trivial⟩

end Token.Written

namespace Literal.Written

variable {v v' : Literal}

theorem read {x : Number} (h : (Literal.number x).Written) : x.Read := by
  obtain ⟨text, hlexeme⟩ := h.lexeme_number
  exact hlexeme.exists_nearest

theorem toJson_inj (h : v.Written) (h' : v'.Written) (heq : v.toJson.shown = v'.toJson.shown) : v = v' := by
  cases v with
  | number x =>
    cases v' with
    | number x' =>
      have hvalue : (Json.number x).shown = (Json.number x').shown := by
        simpa [Literal.toJson, node, shown, shownFields] using heq
      rw [h.read.shown_inj h'.read hvalue]
    | bool b => cases b <;> simp [Literal.toJson, node, shown] at heq
    | _ => simp [Literal.toJson, node, shown, shownFields] at heq
  | text s =>
    cases v' with
    | text s' => simpa [Literal.toJson, node, shown, shownFields] using heq
    | bool b => cases b <;> simp [Literal.toJson, node, shown] at heq
    | _ => simp [Literal.toJson, node, shown, shownFields] at heq
  | bool b =>
    cases v' with
    | bool b' => cases b <;> cases b' <;> simp_all [Literal.toJson, shown]
    | _ => cases b <;> simp [Literal.toJson, node, shown] at heq
  | nil =>
    cases v' with
    | nil => rfl
    | bool b => cases b <;> simp [Literal.toJson, shown] at heq
    | _ => simp [Literal.toJson, node, shown] at heq

theorem solid_toJson (h : v.Written) : v.toJson.shown.Solid := by
  cases v with
  | number x => exact ⟨h.read.solid_shown, trivial⟩
  | text s => exact ⟨trivial, trivial⟩
  | bool b => cases b <;> trivial
  | nil => trivial

end Literal.Written

theorem Token.toJsons_inj : ∀ {ts ts' : List Token}, (∀ t ∈ ts, t.Written) → (∀ t ∈ ts', t.Written) →
    shownItems (ts.map Token.toJson) = shownItems (ts'.map Token.toJson) → ts = ts'
  | [], [], _, _, _ => rfl
  | [], _ :: _, _, _, h => by simp [shownItems] at h
  | _ :: _, [], _, _, h => by simp [shownItems] at h
  | t :: ts, t' :: ts', ht, ht', h => by
    rw [List.forall_mem_cons] at ht ht'
    simp only [List.map_cons, shownItems, List.cons.injEq] at h
    rw [ht.1.toJson_inj ht'.1 h.1, Token.toJsons_inj ht.2 ht'.2 h.2]

theorem Token.solid_toJsons : ∀ {ts : List Token}, (∀ t ∈ ts, t.Written) → SolidItems (shownItems (ts.map Token.toJson))
  | [], _ => trivial
  | t :: ts, ht => by
    rw [List.forall_mem_cons] at ht
    exact ⟨ht.1.solid_toJson, Token.solid_toJsons ht.2⟩

/-! ## Trees -/

theorem shown_node (name : String) (j : Json) : (node name j).shown = node name j.shown := rfl

theorem node_inj {name name' : String} {j j' : Json} : node name j = node name' j' ↔ name = name' ∧ j = j' := by
  simp [node]

mutual
/-- **An expression is known by its document.** -/
theorem Expr.toJson_inj : ∀ {e e' : Expr}, e.Made Token.Written Literal.Written →
    e'.Made Token.Written Literal.Written → e.toJson.shown = e'.toJson.shown → e = e'
  | .literal v, e', h, h', heq => by
    cases e' with
    | literal v' => rw [Literal.Written.toJson_inj h h' (node_inj.1 heq).2]
    | _ => simp [Expr.toJson, shown_node, node_inj] at heq
  | .variable i t, e', h, h', heq => by
    cases e' with
    | «variable» i' t' =>
      obtain ⟨hi, ht⟩ : i = i' ∧ t.toJson.shown = t'.toJson.shown := by
        simpa [Expr.toJson, shown_node, node_inj, shown, shownFields] using heq
      rw [hi, Token.Written.toJson_inj h h' ht]
    | _ => simp [Expr.toJson, shown_node, node_inj] at heq
  | .assign i t e, e', h, h', heq => by
    cases e' with
    | assign i' t' e' =>
      obtain ⟨hi, ht, he⟩ : i = i' ∧ t.toJson.shown = t'.toJson.shown ∧ e.toJson.shown = e'.toJson.shown := by
        simpa [Expr.toJson, shown_node, node_inj, shown, shownFields] using heq
      rw [hi, h.1.toJson_inj h'.1 ht, Expr.toJson_inj h.2 h'.2 he]
    | _ => simp [Expr.toJson, shown_node, node_inj] at heq
  | .group e, e', h, h', heq => by
    cases e' with
    | group e' =>
      have he : e = e' := Expr.toJson_inj h h' (node_inj.1 heq).2
      rw [he]
    | _ => simp [Expr.toJson, shown_node, node_inj] at heq
  | .unary t e, e', h, h', heq => by
    cases e' with
    | unary t' e' =>
      obtain ⟨ht, he⟩ : t.toJson.shown = t'.toJson.shown ∧ e.toJson.shown = e'.toJson.shown := by
        simpa [Expr.toJson, shown_node, node_inj, shown, shownFields] using heq
      rw [h.1.toJson_inj h'.1 ht, Expr.toJson_inj h.2 h'.2 he]
    | _ => simp [Expr.toJson, shown_node, node_inj] at heq
  | .binary l t r, e', h, h', heq => by
    cases e' with
    | binary l' t' r' =>
      obtain ⟨hl, ht, hr⟩ : l.toJson.shown = l'.toJson.shown ∧ t.toJson.shown = t'.toJson.shown ∧
          r.toJson.shown = r'.toJson.shown := by
        simpa [Expr.toJson, shown_node, node_inj, shown, shownFields] using heq
      rw [Expr.toJson_inj h.1 h'.1 hl, h.2.1.toJson_inj h'.2.1 ht, Expr.toJson_inj h.2.2 h'.2.2 hr]
    | _ => simp [Expr.toJson, shown_node, node_inj] at heq
  | .logical l t r, e', h, h', heq => by
    cases e' with
    | logical l' t' r' =>
      obtain ⟨hl, ht, hr⟩ : l.toJson.shown = l'.toJson.shown ∧ t.toJson.shown = t'.toJson.shown ∧
          r.toJson.shown = r'.toJson.shown := by
        simpa [Expr.toJson, shown_node, node_inj, shown, shownFields] using heq
      rw [Expr.toJson_inj h.1 h'.1 hl, h.2.1.toJson_inj h'.2.1 ht, Expr.toJson_inj h.2.2 h'.2.2 hr]
    | _ => simp [Expr.toJson, shown_node, node_inj] at heq
  | .call e t es, e', h, h', heq => by
    cases e' with
    | call e' t' es' =>
      obtain ⟨he, ht, hes⟩ : e.toJson.shown = e'.toJson.shown ∧ t.toJson.shown = t'.toJson.shown ∧
          shownItems (Expr.toJsons es) = shownItems (Expr.toJsons es') := by
        simpa [Expr.toJson, shown_node, node_inj, shown, shownFields] using heq
      rw [Expr.toJson_inj h.1 h'.1 he, h.2.1.toJson_inj h'.2.1 ht, Expr.toJsons_inj h.2.2 h'.2.2 hes]
    | _ => simp [Expr.toJson, shown_node, node_inj] at heq

theorem Expr.toJsons_inj : ∀ {es es' : List Expr}, Expr.MadeAll Token.Written Literal.Written es →
    Expr.MadeAll Token.Written Literal.Written es' →
      shownItems (Expr.toJsons es) = shownItems (Expr.toJsons es') → es = es'
  | [], [], _, _, _ => rfl
  | [], _ :: _, _, _, heq => by simp [Expr.toJsons, shownItems] at heq
  | _ :: _, [], _, _, heq => by simp [Expr.toJsons, shownItems] at heq
  | e :: es, e' :: es', h, h', heq => by
    simp only [Expr.toJsons, shownItems, List.cons.injEq] at heq
    rw [Expr.toJson_inj h.1 h'.1 heq.1, Expr.toJsons_inj h.2 h'.2 heq.2]
end

mutual
theorem Expr.solid_toJson : ∀ {e : Expr}, e.Made Token.Written Literal.Written → e.toJson.shown.Solid
  | .literal _, h => ⟨Literal.Written.solid_toJson h, trivial⟩
  | .variable _ _, h => ⟨⟨trivial, Token.Written.solid_toJson h, trivial⟩, trivial⟩
  | .assign _ _ _, h => ⟨⟨trivial, h.1.solid_toJson, Expr.solid_toJson h.2, trivial⟩, trivial⟩
  | .group e, h => ⟨Expr.solid_toJson (e := e) h, trivial⟩
  | .unary _ _, h => ⟨⟨h.1.solid_toJson, Expr.solid_toJson h.2, trivial⟩, trivial⟩
  | .binary _ _ _, h =>
    ⟨⟨Expr.solid_toJson h.1, h.2.1.solid_toJson, Expr.solid_toJson h.2.2, trivial⟩, trivial⟩
  | .logical _ _ _, h =>
    ⟨⟨Expr.solid_toJson h.1, h.2.1.solid_toJson, Expr.solid_toJson h.2.2, trivial⟩, trivial⟩
  | .call _ _ _, h =>
    ⟨⟨Expr.solid_toJson h.1, h.2.1.solid_toJson, Expr.solid_toJsons h.2.2, trivial⟩, trivial⟩

theorem Expr.solid_toJsons : ∀ {es : List Expr}, Expr.MadeAll Token.Written Literal.Written es →
    SolidItems (shownItems (Expr.toJsons es))
  | [], _ => trivial
  | _ :: _, h => ⟨Expr.solid_toJson h.1, Expr.solid_toJsons h.2⟩
end

/-- An expression that may be missing is known by its document. -/
theorem optionalExpr_inj {o o' : Option Expr} (h : ∀ e ∈ o, e.Made Token.Written Literal.Written)
    (h' : ∀ e ∈ o', e.Made Token.Written Literal.Written) (heq : (optionalExpr o).shown = (optionalExpr o').shown) :
    o = o' := by
  have hne (e : Expr) : e.toJson.shown ≠ .null := by cases e <;> simp [Expr.toJson, node, shown]
  cases o with
  | none =>
    cases o' with
    | none => rfl
    | some e' => exact absurd heq.symm (hne e')
  | some e =>
    cases o' with
    | none => exact absurd heq (hne e)
    | some e' => rw [Expr.toJson_inj (h e rfl) (h' e' rfl) heq]

theorem solid_optionalExpr {o : Option Expr} (h : ∀ e ∈ o, e.Made Token.Written Literal.Written) :
    (optionalExpr o).shown.Solid := by
  cases o with
  | none => trivial
  | some e => exact Expr.solid_toJson (h e rfl)

theorem Stmt.toJson_conditional (test : Expr) (yes : Stmt) (no : Option Stmt) :
    (Stmt.conditional test yes no).toJson = node "If" (.object
      [("condition", test.toJson), ("then_branch", yes.toJson), ("else_branch", no.elim .null Stmt.toJson)]) := by
  cases no <;> rfl

theorem Stmt.shown_ne_null (s : Stmt) : s.toJson.shown ≠ .null := by
  cases s <;> simp [Stmt.toJson, Stmt.toJson_conditional, node, shown]

mutual
/-- **A statement is known by its document.** -/
theorem Stmt.toJson_inj : ∀ {s s' : Stmt}, s.Made Token.Written Literal.Written →
    s'.Made Token.Written Literal.Written → s.toJson.shown = s'.toJson.shown → s = s'
  | .block ss, s', h, h', heq => by
    cases s' with
    | block ss' =>
      have hss : shownItems (Stmt.toJsons ss) = shownItems (Stmt.toJsons ss') := by
        simpa [Stmt.toJson, shown_node, node_inj, shown] using heq
      rw [Stmt.toJsons_inj h h' hss]
    | _ => simp [Stmt.toJson, Stmt.toJson_conditional, shown_node, node_inj] at heq
  | .expression e, s', h, h', heq => by
    cases s' with
    | expression e' => rw [Expr.toJson_inj h h' (node_inj.1 heq).2]
    | _ => simp [Stmt.toJson, Stmt.toJson_conditional, shown_node, node_inj] at heq
  | .function t ps ss, s', h, h', heq => by
    cases s' with
    | function t' ps' ss' =>
      obtain ⟨ht, hps, hss⟩ : t.toJson.shown = t'.toJson.shown ∧
          shownItems (ps.map Token.toJson) = shownItems (ps'.map Token.toJson) ∧
          shownItems (Stmt.toJsons ss) = shownItems (Stmt.toJsons ss') := by
        simpa [Stmt.toJson, shown_node, node_inj, shown, shownFields] using heq
      rw [h.1.toJson_inj h'.1 ht, Token.toJsons_inj h.2.1 h'.2.1 hps, Stmt.toJsons_inj h.2.2 h'.2.2 hss]
    | _ => simp [Stmt.toJson, Stmt.toJson_conditional, shown_node, node_inj] at heq
  | .conditional e yes none, s', h, h', heq => by
    cases s' with
    | conditional e' yes' no' =>
      cases no' with
      | none =>
        obtain ⟨he, hyes⟩ : e.toJson.shown = e'.toJson.shown ∧ yes.toJson.shown = yes'.toJson.shown := by
          simpa [Stmt.toJson, shown_node, node_inj, shown, shownFields] using heq
        rw [Expr.toJson_inj h.1 h'.1 he, Stmt.toJson_inj h.2.1 h'.2.1 hyes]
      | some no' =>
        -- An absent branch is null, which is no statement's document.
        simp only [Stmt.toJson, shown_node, node_inj, shown, shownFields, Json.object.injEq, List.cons.injEq,
          Prod.mk.injEq, true_and, and_true] at heq
        exact absurd heq.2.2.symm no'.shown_ne_null
    | _ => simp [Stmt.toJson, shown_node, node_inj] at heq
  | .conditional e yes (some no), s', h, h', heq => by
    cases s' with
    | conditional e' yes' no' =>
      cases no' with
      | none =>
        simp only [Stmt.toJson, shown_node, node_inj, shown, shownFields, Json.object.injEq, List.cons.injEq,
          Prod.mk.injEq, true_and, and_true] at heq
        exact absurd heq.2.2 no.shown_ne_null
      | some no' =>
        obtain ⟨he, hyes, hno⟩ : e.toJson.shown = e'.toJson.shown ∧ yes.toJson.shown = yes'.toJson.shown ∧
            no.toJson.shown = no'.toJson.shown := by
          simpa [Stmt.toJson, shown_node, node_inj, shown, shownFields] using heq
        rw [Expr.toJson_inj h.1 h'.1 he, Stmt.toJson_inj h.2.1 h'.2.1 hyes, Stmt.toJson_inj h.2.2 h'.2.2 hno]
    | _ => simp [Stmt.toJson, shown_node, node_inj] at heq
  | .print e, s', h, h', heq => by
    cases s' with
    | print e' => rw [Expr.toJson_inj h h' (node_inj.1 heq).2]
    | _ => simp [Stmt.toJson, Stmt.toJson_conditional, shown_node, node_inj] at heq
  | .return t o, s', h, h', heq => by
    cases s' with
    | «return» t' o' =>
      obtain ⟨ht, ho⟩ : t.toJson.shown = t'.toJson.shown ∧ (optionalExpr o).shown = (optionalExpr o').shown := by
        simpa [Stmt.toJson, shown_node, node_inj, shown, shownFields] using heq
      rw [h.1.toJson_inj h'.1 ht, optionalExpr_inj h.2 h'.2 ho]
    | _ => simp [Stmt.toJson, Stmt.toJson_conditional, shown_node, node_inj] at heq
  | .var t o, s', h, h', heq => by
    cases s' with
    | var t' o' =>
      obtain ⟨ht, ho⟩ : t.toJson.shown = t'.toJson.shown ∧ (optionalExpr o).shown = (optionalExpr o').shown := by
        simpa [Stmt.toJson, shown_node, node_inj, shown, shownFields] using heq
      rw [h.1.toJson_inj h'.1 ht, optionalExpr_inj h.2 h'.2 ho]
    | _ => simp [Stmt.toJson, Stmt.toJson_conditional, shown_node, node_inj] at heq
  | .while e body, s', h, h', heq => by
    cases s' with
    | «while» e' body' =>
      obtain ⟨he, hbody⟩ : e.toJson.shown = e'.toJson.shown ∧ body.toJson.shown = body'.toJson.shown := by
        simpa [Stmt.toJson, shown_node, node_inj, shown, shownFields] using heq
      rw [Expr.toJson_inj h.1 h'.1 he, Stmt.toJson_inj h.2 h'.2 hbody]
    | _ => simp [Stmt.toJson, Stmt.toJson_conditional, shown_node, node_inj] at heq

theorem Stmt.toJsons_inj : ∀ {ss ss' : List Stmt}, Stmt.MadeAll Token.Written Literal.Written ss →
    Stmt.MadeAll Token.Written Literal.Written ss' →
      shownItems (Stmt.toJsons ss) = shownItems (Stmt.toJsons ss') → ss = ss'
  | [], [], _, _, _ => rfl
  | [], _ :: _, _, _, heq => by simp [Stmt.toJsons, shownItems] at heq
  | _ :: _, [], _, _, heq => by simp [Stmt.toJsons, shownItems] at heq
  | s :: ss, s' :: ss', h, h', heq => by
    simp only [Stmt.toJsons, shownItems, List.cons.injEq] at heq
    rw [Stmt.toJson_inj h.1 h'.1 heq.1, Stmt.toJsons_inj h.2 h'.2 heq.2]
end

mutual
theorem Stmt.solid_toJson : ∀ {s : Stmt}, s.Made Token.Written Literal.Written → s.toJson.shown.Solid
  | .block ss, h => ⟨@Stmt.solid_toJsons ss h, trivial⟩
  | .expression e, h => ⟨Expr.solid_toJson (e := e) h, trivial⟩
  | .function _ _ _, h =>
    ⟨⟨h.1.solid_toJson, Token.solid_toJsons h.2.1, Stmt.solid_toJsons h.2.2, trivial⟩, trivial⟩
  | .conditional _ _ none, h => ⟨⟨Expr.solid_toJson h.1, Stmt.solid_toJson h.2.1, trivial, trivial⟩, trivial⟩
  | .conditional _ _ (some _), h =>
    ⟨⟨Expr.solid_toJson h.1, Stmt.solid_toJson h.2.1, Stmt.solid_toJson h.2.2, trivial⟩, trivial⟩
  | .print e, h => ⟨Expr.solid_toJson (e := e) h, trivial⟩
  | .return _ _, h => ⟨⟨h.1.solid_toJson, solid_optionalExpr h.2, trivial⟩, trivial⟩
  | .var _ _, h => ⟨⟨h.1.solid_toJson, solid_optionalExpr h.2, trivial⟩, trivial⟩
  | .while _ _, h => ⟨⟨Expr.solid_toJson h.1, Stmt.solid_toJson h.2, trivial⟩, trivial⟩

theorem Stmt.solid_toJsons : ∀ {ss : List Stmt}, Stmt.MadeAll Token.Written Literal.Written ss →
    SolidItems (shownItems (Stmt.toJsons ss))
  | [], _ => trivial
  | _ :: _, h => ⟨Stmt.solid_toJson h.1, Stmt.solid_toJsons h.2⟩
end

theorem Stmt.eq_of_compact_eq {ss ss' : List Stmt} (h : ∀ s ∈ ss, s.Made Token.Written Literal.Written)
    (h' : ∀ s ∈ ss', s.Made Token.Written Literal.Written)
    (heq : (Json.list (Stmt.toJsons ss)).compact = (Json.list (Stmt.toJsons ss')).compact) : ss = ss' := by
  rw [← Stmt.madeAll_iff] at h h'
  have hshown : (Json.list (Stmt.toJsons ss)).shown = (Json.list (Stmt.toJsons ss')).shown :=
    Json.shown_eq_of_compact_eq (Stmt.solid_toJsons h) (Stmt.solid_toJsons h') heq
  exact Stmt.toJsons_inj h h' (Json.list.inj hshown)

/-- **The JSON text of a program loses nothing.**  If the statements of two texts that are read without faults have the
same compact JSON text, they are the same statements, down to the numbers of their nodes and the lines of their
tokens. -/
theorem statements_eq_of_compact_eq {fresh fresh' : Nat} {source source' : String}
    (h : (readSource fresh source).faults = []) (h' : (readSource fresh' source').faults = [])
    (heq : (Json.list (Stmt.toJsons (readSource fresh source).statements)).compact =
      (Json.list (Stmt.toJsons (readSource fresh' source').statements)).compact) :
    (readSource fresh source).statements = (readSource fresh' source').statements :=
  Stmt.eq_of_compact_eq (readSource_made h) (readSource_made h') heq

/-- Other blanks between the tokens and a comment behind them, with a text that has to be escaped. -/
theorem respaced_statements_eq :
    (readSource 0 "if (a) print -b(\"c\\\", 2);").statements =
      (readSource 0 "if(a)print  - b( \"c\\\",2) ; // d").statements :=
  statements_eq_of_compact_eq (by decide +kernel) (by decide +kernel) (by decide +kernel)

end Scriptlet
