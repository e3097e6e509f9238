import Mathlib
import Scriptlet.Proofs.NestedLists
import Scriptlet.Proofs.Origins

/-!
# The dump determines the tree

The parenthesised dump of a tree is the text of a listing (`Stmt.text_listing`), and from the listing the tree is read
back, but for the numbers of its nodes and the lines of its tokens (`Stmt.stmt_listing`).  A word is read as the
scanner reads it, so that its text tells its kind.  Since texts of listings are unambiguous, two statements that were
read have the same dump exactly when they are the same but for numbers and lines (`Stmt.dump_eq_iff`).
-/
namespace Scriptlet

/-! ## Trees without numbers and lines -/

def Token.erased (t : Token) : Token := { t with line := 0 }

mutual
/-- The expression with all numbers of nodes and all lines set to zero. -/
def Expr.erased : Expr → Expr
  | .literal value => .literal value
  | .variable _ name => .variable 0 name.erased
  | .assign _ name value => .assign 0 name.erased value.erased
  | .group inner => .group inner.erased
  | .unary operator right => .unary operator.erased right.erased
  | .binary left operator right => .binary left.erased operator.erased right.erased
  | .logical left operator right => .logical left.erased operator.erased right.erased
  | .call callee paren arguments => .call callee.erased paren.erased (Expr.erasedAll arguments)

def Expr.erasedAll : List Expr → List Expr
  | [] => []
  | e :: es => e.erased :: Expr.erasedAll es
end

mutual
/-- The statement with all numbers of nodes and all lines set to zero. -/
def Stmt.erased : Stmt → Stmt
  | .block body => .block (Stmt.erasedAll body)
  | .expression value => .expression value.erased
  | .function name params body => .function name.erased (params.map Token.erased) (Stmt.erasedAll body)
  | .conditional test yes none => .conditional test.erased yes.erased none
  | .conditional test yes (some no) => .conditional test.erased yes.erased (some no.erased)
  | .print value => .print value.erased
  | .return keyword value => .return keyword.erased (value.map Expr.erased)
  | .var name initializer => .var name.erased (initializer.map Expr.erased)
  | .while test body => .while test.erased body.erased

def Stmt.erasedAll : List Stmt → List Stmt
  | [] => []
  | s :: ss => s.erased :: Stmt.erasedAll ss
end

mutual
/-- The dump shows neither numbers nor lines. -/
theorem Expr.dump_erased : ∀ e : Expr, e.erased.dump = e.dump
  | .literal _ => rfl
  | .variable _ _ => rfl
  | .assign _ _ value => by simp [Expr.erased, Expr.dump, Token.erased, Expr.dump_erased value]
  | .group inner => by simp [Expr.erased, Expr.dump, Expr.dump_erased inner]
  | .unary _ right => by simp [Expr.erased, Expr.dump, Token.erased, Expr.dump_erased right]
  | .binary left _ right => by
    simp [Expr.erased, Expr.dump, Token.erased, Expr.dump_erased left, Expr.dump_erased right]
  | .logical left _ right => by
    simp [Expr.erased, Expr.dump, Token.erased, Expr.dump_erased left, Expr.dump_erased right]
  | .call callee _ arguments => by
    simp [Expr.erased, Expr.dump, Expr.dump_erased callee, Expr.dumps_erasedAll arguments]

theorem Expr.dumps_erasedAll : ∀ es : List Expr, Expr.dumps (Expr.erasedAll es) = Expr.dumps es
  | [] => rfl
  | e :: es => by simp [Expr.erasedAll, Expr.dumps, Expr.dump_erased e, Expr.dumps_erasedAll es]
end

mutual
theorem Stmt.dump_erased : ∀ s : Stmt, s.erased.dump = s.dump
  | .block body => by simp [Stmt.erased, Stmt.dump, Stmt.dumps_erasedAll body]
  | .expression value => by simp [Stmt.erased, Stmt.dump, Expr.dump_erased]
  | .function name params body => by
    have hparams : (params.map Token.erased).map Token.lexeme = params.map Token.lexeme := by simp [Token.erased]
    simp only [Stmt.erased, Stmt.dump, hparams, Stmt.dumps_erasedAll body]
    rfl
  | .conditional test yes none => by simp [Stmt.erased, Stmt.dump, Expr.dump_erased, Stmt.dump_erased yes]
  | .conditional test yes (some no) => by
    simp [Stmt.erased, Stmt.dump, Expr.dump_erased, Stmt.dump_erased yes, Stmt.dump_erased no]
  | .print value => by simp [Stmt.erased, Stmt.dump, Expr.dump_erased]
  | .return _ none => rfl
  | .return _ (some value) => by simp [Stmt.erased, Stmt.dump, Expr.dump_erased]
  | .var _ none => rfl
  | .var _ (some value) => by simp [Stmt.erased, Stmt.dump, Token.erased, Expr.dump_erased]
  | .while test body => by simp [Stmt.erased, Stmt.dump, Expr.dump_erased, Stmt.dump_erased body]

theorem Stmt.dumps_erasedAll : ∀ ss : List Stmt, Stmt.dumps (Stmt.erasedAll ss) = Stmt.dumps ss
  | [] => rfl
  | s :: ss => by simp [Stmt.erasedAll, Stmt.dumps, Stmt.dump_erased s, Stmt.dumps_erasedAll ss]
end

/-! ## Listings of trees -/

mutual
def Expr.listing : Expr → Listing
  | .literal value => .word value.dump
  | .variable _ name => .word name.lexeme
  | .assign _ name value => .list [.word "=", .word name.lexeme, value.listing]
  | .group inner => .list [.word "group", inner.listing]
  | .unary operator right => .list [.word operator.lexeme, right.listing]
  | .binary left operator right => .list [.word operator.lexeme, left.listing, right.listing]
  | .logical left operator right => .list [.word operator.lexeme, left.listing, right.listing]
  | .call callee _ arguments => .list (.word "call" :: callee.listing :: Expr.listings arguments)

def Expr.listings : List Expr → List Listing
  | [] => []
  | e :: es => e.listing :: Expr.listings es
end

mutual
def Stmt.listing : Stmt → Listing
  | .block body => .list (.word "block" :: Stmt.listings body)
  | .expression value => .list [.word ";", value.listing]
  | .function name params body => .list (.word "fun" :: .word name.lexeme ::
      .list (params.map fun p => .word p.lexeme) :: Stmt.listings body)
  | .conditional test yes none => .list [.word "if", test.listing, yes.listing]
  | .conditional test yes (some no) => .list [.word "if", test.listing, yes.listing, no.listing]
  | .print value => .list [.word "print", value.listing]
  | .return _ none => .list [.word "return"]
  | .return _ (some value) => .list [.word "return", value.listing]
  | .var name none => .list [.word "var", .word name.lexeme]
  | .var name (some value) => .list [.word "var", .word name.lexeme, value.listing]
  | .while test body => .list [.word "while", test.listing, body.listing]

def Stmt.listings : List Stmt → List Listing
  | [] => []
  | s :: ss => s.listing :: Stmt.listings ss
end

mutual
theorem Expr.text_listing : ∀ e : Expr, e.listing.text = e.dump
  | .literal _ => rfl
  | .variable _ _ => rfl
  | .assign _ _ value => by simp [Expr.listing, Listing.text, Listing.texts, Expr.dump, Expr.text_listing value]
  | .group inner => by simp [Expr.listing, Listing.text, Listing.texts, Expr.dump, Expr.text_listing inner]
  | .unary _ right => by simp [Expr.listing, Listing.text, Listing.texts, Expr.dump, Expr.text_listing right]
  | .binary left _ right => by
    simp [Expr.listing, Listing.text, Listing.texts, Expr.dump, Expr.text_listing left, Expr.text_listing right]
  | .logical left _ right => by
    simp [Expr.listing, Listing.text, Listing.texts, Expr.dump, Expr.text_listing left, Expr.text_listing right]
  | .call callee _ arguments => by
    simp [Expr.listing, Listing.text, Listing.texts, Expr.dump, Expr.text_listing callee, Expr.texts_listings arguments]

theorem Expr.texts_listings : ∀ es : List Expr, Listing.texts (Expr.listings es) = Expr.dumps es
  | [] => rfl
  | e :: es => by simp [Expr.listings, Listing.texts, Expr.dumps, Expr.text_listing e, Expr.texts_listings es]
end

theorem Listing.texts_words (ps : List Token) :
    Listing.texts (ps.map fun p => .word p.lexeme) = ps.map Token.lexeme := by
  induction ps with
  | nil => rfl
  | cons p ps ih => simp [Listing.texts, Listing.text, ih]

mutual
/-- The dump is the text of the listing. -/
theorem Stmt.text_listing : ∀ s : Stmt, s.listing.text = s.dump
  | .block body => by simp [Stmt.listing, Listing.text, Listing.texts, Stmt.dump, Stmt.texts_listings body]
  | .expression value => by simp [Stmt.listing, Listing.text, Listing.texts, Stmt.dump, Expr.text_listing]
  | .function name params body => by
    simp [Stmt.listing, Listing.text, Listing.texts, Listing.texts_words, Stmt.dump, Stmt.texts_listings body]
  | .conditional test yes none => by
    simp [Stmt.listing, Listing.text, Listing.texts, Stmt.dump, Expr.text_listing, Stmt.text_listing yes]
  | .conditional test yes (some no) => by
    simp [Stmt.listing, Listing.text, Listing.texts, Stmt.dump, Expr.text_listing, Stmt.text_listing yes,
      Stmt.text_listing no]
  | .print value => by simp [Stmt.listing, Listing.text, Listing.texts, Stmt.dump, Expr.text_listing]
  | .return _ none => rfl
  | .return _ (some value) => by simp [Stmt.listing, Listing.text, Listing.texts, Stmt.dump, Expr.text_listing]
  | .var _ none => rfl
  | .var _ (some value) => by simp [Stmt.listing, Listing.text, Listing.texts, Stmt.dump, Expr.text_listing]
  | .while test body => by
    simp [Stmt.listing, Listing.text, Listing.texts, Stmt.dump, Expr.text_listing, Stmt.text_listing body]

theorem Stmt.texts_listings : ∀ ss : List Stmt, Listing.texts (Stmt.listings ss) = Stmt.dumps ss
  | [] => rfl
  | s :: ss => by simp [Stmt.listings, Listing.texts, Stmt.dumps, Stmt.text_listing s, Stmt.texts_listings ss]
end

/-! ## Reading listings -/

def Token.ofWord (word : String) : Token := ⟨.ofText word.toList, word, 0⟩

def Expr.ofWord (word : String) : Expr :=
  match Grammar.literalOf? (Kind.ofText word.toList) with
  | some value => .literal value
  | none => .variable 0 (.ofWord word)

/-- The name of a variable. -/
def Expr.name : Expr → Token
  | .variable _ name => name
  | _ => .atEnd 0

/-- An expression from the word that stands first in its list and the parts that follow. -/
def Expr.ofParts (head : Token) (first : Expr) (others : List Expr) : Expr :=
  -- Of the words that nodes begin with, only these two are no tokens of the language and so look like names.
  if head.kind = .identifier then
    if head.lexeme = "group" then .group first else .call first ⟨.rightParen, ")", 0⟩ others
  else match others with
    | [] => .unary head first
    | second :: _ =>
      if head.kind = .equal then .assign 0 first.name second
      else if head.kind ∈ logicalKinds then .logical first head second
      else .binary first head second

mutual
def Listing.expr : Listing → Expr
  | .word text => .ofWord text
  | .list (.word head :: first :: others) => .ofParts (.ofWord head) first.expr (Listing.exprs others)
  | _ => .literal .nil

def Listing.exprs : List Listing → List Expr
  | [] => []
  | p :: ps => p.expr :: Listing.exprs ps
end

def Listing.name : Listing → Token
  | .word text => .ofWord text
  | .list _ => .atEnd 0

/-- A statement from the word that stands first in its list and the parts that follow, which have been read as
statements too. -/
def Stmt.ofParts (head : Token) (parts : List Listing) (statements : List Stmt) : Stmt :=
  match head.kind, parts, statements with
  | .identifier, _, body => .block body
  | .semicolon, [value], _ => .expression value.expr
  | .funWord, name :: .list params :: _, _ :: _ :: body => .function name.name (params.map Listing.name) body
  | .ifWord, [test, _], [_, yes] => .conditional test.expr yes none
  | .ifWord, [test, _, _], [_, yes, no] => .conditional test.expr yes (some no)
  | .printWord, [value], _ => .print value.expr
  | .returnWord, [], _ => .return head none
  | .returnWord, [value], _ => .return head (some value.expr)
  | .varWord, [name], _ => .var name.name none
  | .varWord, [name, value], _ => .var name.name (some value.expr)
  | .whileWord, [test, _], [_, body] => .while test.expr body
  | _, _, _ => .block []

mutual
def Listing.stmt : Listing → Stmt
  | .list (.word head :: parts) => .ofParts (.ofWord head) parts (Listing.stmts parts)
  | _ => .block []

def Listing.stmts : List Listing → List Stmt
  | [] => []
  | p :: ps => p.stmt :: Listing.stmts ps
end

/-! ## Words of trees -/

/-- Every token but a parenthesis can stand in a list as it is written. -/
theorem Lexeme.plain {cs : List Char} {kind : Kind} (h : Lexeme cs (some kind)) (hl : kind ≠ .leftParen)
    (hr : kind ≠ .rightParen) : Plain cs := by
  have hwords : ∀ p ∈ reservedWords, ∀ c ∈ p.1.toList, c ∉ delimiters := by
    simp [reservedWords, delimiters]
  have hmarks : ∀ p ∈ marks, p.2 ≠ .leftParen → p.2 ≠ .rightParen → ∀ c ∈ p.1.toList, c ∉ delimiters := by
    simp [marks, delimiters]
  have hne := h.ne_nil
  have hdigit {c : Char} (hc : c.isDigit = true) : c ∉ delimiters := fun hmem => by
    simp only [delimiters, List.mem_cons, List.not_mem_nil, or_false] at hmem
    rcases hmem with rfl | rfl | rfl | rfl <;> exact absurd hc (by decide)
  have hpart {c : Char} (hc : c.isAlphanum = true ∨ c = '_') : c ∉ delimiters := fun hmem => by
    simp only [delimiters, List.mem_cons, List.not_mem_nil, or_false] at hmem
    rcases hmem with rfl | rfl | rfl | rfl <;> exact absurd hc (by decide)
  cases h with
  | string h => exact .quoted h
  | whole h hd => exact .bare h fun c hc => hdigit (hd c hc)
  | @fraction ds es h hd h' he =>
    refine .bare hne fun c hc => ?_
    rcases List.mem_append.1 hc with hc | hc
    · exact hdigit (hd c hc)
    · rcases List.mem_cons.1 hc with rfl | hc
      · decide
      · exact hdigit (he c hc)
  | reserved h => exact .bare hne (hwords _ h)
  | @identifier c cs hc hcs h =>
    refine .bare hne fun d hd => ?_
    rcases List.mem_cons.1 hd with rfl | hd
    · exact hpart (hc.imp_left fun hc => by simp [Char.isAlphanum, hc])
    · exact hpart (hcs d hd)
  | mark h => exact .bare hne (hmarks _ h hl hr)

namespace Token.Written

variable {t : Token}

theorem ofWord (h : t.Written) : Token.ofWord t.lexeme = t.erased := by
  rw [Token.ofWord, Lexeme.ofText h]
  rfl

/-- A token of a kind with one text only. -/
theorem erased_fixed (h : t.Written) {kind : Kind} (hk : t.kind = kind) (hi : kind ≠ .identifier)
    (hs : ∀ s, kind ≠ .string s) (hn : ∀ x, kind ≠ .number x) {word : String}
    (hword : ∀ p ∈ reservedWords ++ marks, p.2 = kind → p.1 = word) : t.erased = ⟨kind, word, 0⟩ := by
  have hlexeme : t.lexeme.toList = word.toList := by
    rw [Written, hk] at h
    generalize t.lexeme.toList = text at h
    cases h with
    | string => exact absurd rfl (hs _)
    | whole => exact absurd rfl (hn _)
    | fraction => exact absurd rfl (hn _)
    | reserved h => rw [← hword _ (List.mem_append_left _ h) rfl]
    | identifier => exact absurd rfl hi
    | mark h => rw [← hword _ (List.mem_append_right _ h) rfl]
  rw [Token.erased, hk, String.toList_inj.1 hlexeme]

theorem erased_rightParen (h : t.Written) (hk : t.kind = .rightParen) : t.erased = ⟨.rightParen, ")", 0⟩ :=
  h.erased_fixed hk (by decide) (by simp) (by simp) (by decide)

theorem erased_returnWord (h : t.Written) (hk : t.kind = .returnWord) : t.erased = ⟨.returnWord, "return", 0⟩ :=
  h.erased_fixed hk (by decide) (by simp) (by simp) (by decide)

/-- A name is read as a variable. -/
theorem ofWord_name (h : t.Written) (hk : t.kind = .identifier) : Expr.ofWord t.lexeme = .variable 0 t.erased := by
  rw [Expr.ofWord, Lexeme.ofText h, hk, h.ofWord]
  rfl

theorem plain (h : t.Written) {kinds : List Kind} (hk : t.kind ∈ kinds) (hl : .leftParen ∉ kinds)
    (hr : .rightParen ∉ kinds) : Plain t.lexeme.toList :=
  Lexeme.plain h (fun heq => hl (heq ▸ hk)) (fun heq => hr (heq ▸ hk))

theorem plain_name (h : t.Written) (hk : t.kind = .identifier) : Plain t.lexeme.toList :=
  h.plain (List.mem_singleton.2 hk) (by decide) (by decide)

end Token.Written

theorem Lexeme.exists_quoted {text : List Char} {s : String} (h : Lexeme text (some (.string s))) :
    ∃ cs, '"' ∉ cs ∧ s = String.ofList cs := by
  cases h with
  | string h => exact ⟨_, h, rfl⟩
  | reserved h => exact absurd rfl ((Kind.no_value_of_mem (List.mem_append_left _ h)).1 _)
  | mark h => exact absurd rfl ((Kind.no_value_of_mem (List.mem_append_right _ h)).1 _)

/-- The literal is no infinite number. -/
def Literal.Finite : Literal → Prop
  | .number x => x.isFinite = true
  | _ => True

instance : DecidablePred Literal.Finite
  | .number x => inferInstanceAs (Decidable (x.isFinite = true))
  | .text _ => .isTrue trivial
  | .bool _ => .isTrue trivial
  | .nil => .isTrue trivial

/-- The dump of a literal is written as a literal of that value. -/
theorem Literal.Written.lexeme_dump {v : Literal} (h : v.Written) (hf : v.Finite) :
    ∃ kind, Lexeme v.dump.toList (some kind) ∧ Grammar.literalOf? kind = some v := by
  cases v with
  | number x =>
    obtain ⟨text, hlexeme⟩ := h.lexeme_number
    obtain ⟨num, den, rfl⟩ := hlexeme.exists_nearest
    exact ⟨_, Number.lexeme_literalText hf (Number.isNegative_nearest _ _), rfl⟩
  | text s =>
    obtain ⟨text, hlexeme⟩ := h.lexeme_text
    obtain ⟨cs, hcs, rfl⟩ := hlexeme.exists_quoted
    exact ⟨.string (String.ofList cs), by simpa [Literal.dump] using Lexeme.string hcs, rfl⟩
  | bool b =>
    cases b with
    | false => exact ⟨.falseWord, .reserved (by decide), rfl⟩
    | true => exact ⟨.trueWord, .reserved (by decide), rfl⟩
  | nil => exact ⟨.nilWord, .reserved (by decide), rfl⟩

theorem Literal.Written.ofWord_dump {v : Literal} (h : v.Written) (hf : v.Finite) :
    Expr.ofWord v.dump = .literal v := by
  obtain ⟨kind, hlexeme, hvalue⟩ := h.lexeme_dump hf
  rw [Expr.ofWord, hlexeme.ofText, hvalue]

theorem Literal.Written.plain_dump {v : Literal} (h : v.Written) (hf : v.Finite) : Plain v.dump.toList := by
  obtain ⟨kind, hlexeme, hvalue⟩ := h.lexeme_dump hf
  refine hlexeme.plain ?_ ?_ <;> rintro rfl <;> cases hvalue

/-! ## Reading trees back -/

section

variable {first second : Expr} {head : Token}

theorem Expr.ofParts_unary (h : head.kind ∈ signKinds) : Expr.ofParts head first [] = .unary head first := by
  have hne : head.kind ≠ .identifier := fun hk => by simp [hk, signKinds] at h
  rw [Expr.ofParts, if_neg hne]

theorem Expr.ofParts_binary (h : head.kind ∈ binaryKinds) :
    Expr.ofParts head first [second] = .binary first head second := by
  have hne : head.kind ≠ .identifier := fun hk => by simp [hk, binaryKinds] at h
  have hequal : head.kind ≠ .equal := fun hk => by simp [hk, binaryKinds] at h
  have hlogical : head.kind ∉ logicalKinds := fun hk => by
    simp only [logicalKinds, List.mem_cons, List.not_mem_nil, or_false] at hk
    rcases hk with hk | hk <;> simp [hk, binaryKinds] at h
  rw [Expr.ofParts, if_neg hne]
  simp [hequal, hlogical]

theorem Expr.ofParts_logical (h : head.kind ∈ logicalKinds) :
    Expr.ofParts head first [second] = .logical first head second := by
  have hne : head.kind ≠ .identifier := fun hk => by simp [hk, logicalKinds] at h
  have hequal : head.kind ≠ .equal := fun hk => by simp [hk, logicalKinds] at h
  rw [Expr.ofParts, if_neg hne]
  simp [hequal, h]

end

mutual
/-- **The listing of an expression is read back as the expression.** -/
theorem Expr.expr_listing : ∀ e : Expr, e.Formed → e.Made Token.Written Literal.Written →
    e.Made (fun _ => True) Literal.Finite → e.listing.expr = e.erased
  | .literal v, _, hm, hf => Literal.Written.ofWord_dump hm hf
  | .variable _ name, h, hm, _ => Token.Written.ofWord_name hm h
  | .assign _ name value, h, hm, hf => by
    have hvalue := Expr.expr_listing value h.2 hm.2 hf.2
    have hname := hm.1.ofWord_name h.1
    rw [Expr.listing, Listing.expr, Listing.expr, Listing.exprs, Listing.exprs, hvalue, hname]
    rfl
  | .group inner, h, hm, hf => by
    rw [Expr.listing, Listing.expr, Listing.exprs, Expr.expr_listing inner h hm hf]
    rfl
  | .unary operator right, h, hm, hf => by
    rw [Expr.listing, Listing.expr, Listing.exprs, Expr.expr_listing right h.2.2 hm.2 hf.2, hm.1.ofWord]
    exact Expr.ofParts_unary h.1
  | .binary left operator right, h, hm, hf => by
    rw [Expr.listing, Listing.expr, Listing.exprs, Listing.exprs, Expr.expr_listing left h.2.2.1 hm.1 hf.1,
      Expr.expr_listing right h.2.2.2 hm.2.2 hf.2.2, hm.2.1.ofWord]
    exact Expr.ofParts_binary h.1
  | .logical left operator right, h, hm, hf => by
    rw [Expr.listing, Listing.expr, Listing.exprs, Listing.exprs, Expr.expr_listing left h.2.2.1 hm.1 hf.1,
      Expr.expr_listing right h.2.2.2 hm.2.2 hf.2.2, hm.2.1.ofWord]
    exact Expr.ofParts_logical h.1
  | .call callee paren arguments, h, hm, hf => by
    rw [Expr.listing, Listing.expr, Expr.expr_listing callee h.2.2.1 hm.1 hf.1,
      Expr.exprs_listings arguments h.2.2.2 hm.2.2 hf.2.2, Expr.erased, hm.2.1.erased_rightParen h.1]
    rfl

theorem Expr.exprs_listings : ∀ es : List Expr, Expr.FormedAll es → Expr.MadeAll Token.Written Literal.Written es →
    Expr.MadeAll (fun _ => True) Literal.Finite es → Listing.exprs (Expr.listings es) = Expr.erasedAll es
  | [], _, _, _ => rfl
  | e :: es, h, hm, hf => by
    rw [Expr.listings, Listing.exprs, Expr.expr_listing e h.1 hm.1 hf.1, Expr.exprs_listings es h.2 hm.2 hf.2]
    rfl
end

theorem Listing.names_words {ps : List Token} (h : ∀ p ∈ ps, p.Written) :
    (ps.map fun p => Listing.word p.lexeme).map Listing.name = ps.map Token.erased := by
  rw [List.map_map]
  exact List.map_congr_left fun p hp => (h p hp).ofWord

theorem Expr.expr_listing_of_mem {o : Option Expr} (h : ∀ e ∈ o, e.Formed)
    (hm : ∀ e ∈ o, e.Made Token.Written Literal.Written)
    (hf : ∀ e ∈ o, e.Made (fun _ => True) Literal.Finite) {e : Expr} (he : e ∈ o) : e.listing.expr = e.erased :=
  e.expr_listing (h e he) (hm e he) (hf e he)

mutual
/-- **The listing of a statement is read back as the statement.** -/
theorem Stmt.stmt_listing : ∀ s : Stmt, s.Formed → s.Made Token.Written Literal.Written →
    s.Made (fun _ => True) Literal.Finite → s.listing.stmt = s.erased
  | .block body, h, hm, hf => by
    rw [Stmt.listing, Listing.stmt, Stmt.stmts_listings body h hm hf]
    rfl
  | .expression value, h, hm, hf => congrArg Stmt.expression (value.expr_listing h hm hf)
  | .function name params body, h, hm, hf => by
    have hbody := Stmt.stmts_listings body h.2.2 hm.2.2 hf.2.2
    rw [Stmt.listing, Listing.stmt, Listing.stmts, Listing.stmts, hbody, Stmt.erased, ← hm.1.ofWord,
      ← Listing.names_words hm.2.1]
    rfl
  | .conditional test yes none, h, hm, hf =>
    congrArg₂ (Stmt.conditional · · none) (test.expr_listing h.1 hm.1 hf.1)
      (Stmt.stmt_listing yes h.2.2.1 hm.2.1 hf.2.1)
  | .conditional test yes (some no), h, hm, hf => by
    have htest := test.expr_listing h.1 hm.1 hf.1
    have hyes := Stmt.stmt_listing yes h.2.2.1 hm.2.1 hf.2.1
    have hno := Stmt.stmt_listing no h.2.2.2.2 hm.2.2 hf.2.2
    rw [Stmt.erased, ← htest, ← hyes, ← hno]
    rfl
  | .print value, h, hm, hf => congrArg Stmt.print (value.expr_listing h hm hf)
  | .return keyword none, h, hm, _ => by
    rw [Stmt.erased, hm.1.erased_returnWord h.1]
    rfl
  | .return keyword (some value), h, hm, hf => by
    rw [Stmt.erased, Option.map_some, hm.1.erased_returnWord h.1, ← Expr.expr_listing_of_mem h.2 hm.2 hf.2 rfl]
    rfl
  | .var name none, _, hm, _ => congrArg (Stmt.var · none) hm.1.ofWord
  | .var name (some value), h, hm, hf => by
    rw [Stmt.erased, Option.map_some, ← hm.1.ofWord, ← Expr.expr_listing_of_mem h.2 hm.2 hf.2 rfl]
    rfl
  | .while test body, h, hm, hf =>
    congrArg₂ Stmt.while (test.expr_listing h.1 hm.1 hf.1) (Stmt.stmt_listing body h.2.2 hm.2 hf.2)

theorem Stmt.stmts_listings : ∀ ss : List Stmt, Stmt.FormedAll ss → Stmt.MadeAll Token.Written Literal.Written ss →
    Stmt.MadeAll (fun _ => True) Literal.Finite ss → Listing.stmts (Stmt.listings ss) = Stmt.erasedAll ss
  | [], _, _, _ => rfl
  | s :: ss, h, hm, hf => by
    rw [Stmt.listings, Listing.stmts, Stmt.stmt_listing s h.1 hm.1 hf.1, Stmt.stmts_listings ss h.2 hm.2 hf.2]
    rfl
end

/-! ## Listings of trees are plain -/

/-- The words that nodes begin with, operators apart. -/
def nodeWords : List String :=
  ["=", "group", "call", "block", ";", "fun", "if", "print", "return", "var", "while"]

theorem plain_nodeWord {word : String} (h : word ∈ nodeWords) : Plain word.toList := by
  have hwords : ∀ w ∈ nodeWords, w.toList ≠ [] ∧ ∀ c ∈ w.toList, c ∉ delimiters := by simp [nodeWords, delimiters]
  exact .bare (hwords word h).1 (hwords word h).2

mutual
theorem Expr.plain_listing : ∀ e : Expr, e.Formed → e.Made Token.Written Literal.Written →
    e.Made (fun _ => True) Literal.Finite → e.listing.AllPlain
  | .literal v, _, hm, hf => Literal.Written.plain_dump hm hf
  | .variable _ name, h, hm, _ => Token.Written.plain_name hm h
  | .assign _ name value, h, hm, hf =>
    ⟨plain_nodeWord (by decide), hm.1.plain_name h.1, Expr.plain_listing value h.2 hm.2 hf.2, trivial⟩
  | .group inner, h, hm, hf => ⟨plain_nodeWord (by decide), Expr.plain_listing inner h hm hf, trivial⟩
  | .unary operator right, h, hm, hf =>
    ⟨hm.1.plain h.1 (by decide) (by decide), Expr.plain_listing right h.2.2 hm.2 hf.2, trivial⟩
  | .binary left operator right, h, hm, hf =>
    ⟨hm.2.1.plain h.1 (by decide) (by decide), Expr.plain_listing left h.2.2.1 hm.1 hf.1,
      Expr.plain_listing right h.2.2.2 hm.2.2 hf.2.2, trivial⟩
  | .logical left operator right, h, hm, hf =>
    ⟨hm.2.1.plain h.1 (by decide) (by decide), Expr.plain_listing left h.2.2.1 hm.1 hf.1,
      Expr.plain_listing right h.2.2.2 hm.2.2 hf.2.2, trivial⟩
  | .call callee paren arguments, h, hm, hf =>
    ⟨plain_nodeWord (by decide), Expr.plain_listing callee h.2.2.1 hm.1 hf.1,
      Expr.plain_listings arguments h.2.2.2 hm.2.2 hf.2.2⟩

theorem Expr.plain_listings : ∀ es : List Expr, Expr.FormedAll es → Expr.MadeAll Token.Written Literal.Written es →
    Expr.MadeAll (fun _ => True) Literal.Finite es → Listing.PartsPlain (Expr.listings es)
  | [], _, _, _ => trivial
  | e :: es, h, hm, hf => ⟨Expr.plain_listing e h.1 hm.1 hf.1, Expr.plain_listings es h.2 hm.2 hf.2⟩
end

theorem Listing.plain_words : ∀ {ps : List Token}, (∀ p ∈ ps, p.kind = .identifier) → (∀ p ∈ ps, p.Written) →
    Listing.PartsPlain (ps.map fun p => .word p.lexeme)
  | [], _, _ => trivial
  | p :: ps, h, hm => by
    rw [List.forall_mem_cons] at h hm
    exact ⟨hm.1.plain_name h.1, Listing.plain_words h.2 hm.2⟩

mutual
/-- All words in the listing of a statement are plain. -/
theorem Stmt.plain_listing : ∀ s : Stmt, s.Formed → s.Made Token.Written Literal.Written →
    s.Made (fun _ => True) Literal.Finite → s.listing.AllPlain
  | .block body, h, hm, hf => ⟨plain_nodeWord (by decide), Stmt.plain_listings body h hm hf⟩
  | .expression value, h, hm, hf => ⟨plain_nodeWord (by decide), value.plain_listing h hm hf, trivial⟩
  | .function name params body, h, hm, hf =>
    ⟨plain_nodeWord (by decide), hm.1.plain_name h.1, Listing.plain_words h.2.1 hm.2.1,
      Stmt.plain_listings body h.2.2 hm.2.2 hf.2.2⟩
  | .conditional test yes none, h, hm, hf =>
    ⟨plain_nodeWord (by decide), test.plain_listing h.1 hm.1 hf.1, Stmt.plain_listing yes h.2.2.1 hm.2.1 hf.2.1,
      trivial⟩
  | .conditional test yes (some no), h, hm, hf =>
    ⟨plain_nodeWord (by decide), test.plain_listing h.1 hm.1 hf.1, Stmt.plain_listing yes h.2.2.1 hm.2.1 hf.2.1,
      Stmt.plain_listing no h.2.2.2.2 hm.2.2 hf.2.2, trivial⟩
  | .print value, h, hm, hf => ⟨plain_nodeWord (by decide), value.plain_listing h hm hf, trivial⟩
  | .return keyword none, _, _, _ => ⟨plain_nodeWord (by decide), trivial⟩
  | .return keyword (some value), h, hm, hf =>
    ⟨plain_nodeWord (by decide), value.plain_listing (h.2 value rfl) (hm.2 value rfl) (hf.2 value rfl), trivial⟩
  | .var name none, h, hm, _ => ⟨plain_nodeWord (by decide), hm.1.plain_name h.1, trivial⟩
  | .var name (some value), h, hm, hf =>
    ⟨plain_nodeWord (by decide), hm.1.plain_name h.1,
      value.plain_listing (h.2 value rfl) (hm.2 value rfl) (hf.2 value rfl), trivial⟩
  | .while test body, h, hm, hf =>
    ⟨plain_nodeWord (by decide), test.plain_listing h.1 hm.1 hf.1, Stmt.plain_listing body h.2.2 hm.2 hf.2, trivial⟩

theorem Stmt.plain_listings : ∀ ss : List Stmt, Stmt.FormedAll ss → Stmt.MadeAll Token.Written Literal.Written ss →
    Stmt.MadeAll (fun _ => True) Literal.Finite ss → Listing.PartsPlain (Stmt.listings ss)
  | [], _, _, _ => trivial
  | s :: ss, h, hm, hf => ⟨Stmt.plain_listing s h.1 hm.1 hf.1, Stmt.plain_listings ss h.2 hm.2 hf.2⟩
end

/-! ## Statements with the same dump -/

/-- A statement of a text without faults, at any depth, is well formed and written in the text. -/
theorem Stmt.formed_and_made {fresh : Nat} {source : String} (h : (readSource fresh source).faults = []) {s : Stmt}
    (hs : s ∈ Stmt.insideAll (readSource fresh source).statements) :
    s.Formed ∧ s.Made Token.Written Literal.Written := by
  have hformed := Stmt.of_mem_insideAll (fun _ h => h.parts) _ (readSource_formed fresh source)
  have hmade := Stmt.of_mem_insideAll (fun _ h => h.parts) _ (readSource_made h)
  exact ⟨hformed s hs, hmade s hs⟩

/-- **The dump determines the statement.**  Two statements out of texts without faults, at any depth and with no
infinite number in them, have the same dump exactly when they are equal up to the numbers of their nodes and the lines
of their tokens. -/
theorem Stmt.dump_eq_iff {fresh fresh' : Nat} {source source' : String} (h : (readSource fresh source).faults = [])
    (h' : (readSource fresh' source').faults = []) {s s' : Stmt}
    (hs : s ∈ Stmt.insideAll (readSource fresh source).statements)
    (hs' : s' ∈ Stmt.insideAll (readSource fresh' source').statements) (hf : s.Made (fun _ => True) Literal.Finite)
    (hf' : s'.Made (fun _ => True) Literal.Finite) : s.dump = s'.dump ↔ s.erased = s'.erased := by
  obtain ⟨hformed, hmade⟩ := Stmt.formed_and_made h hs
  obtain ⟨hformed', hmade'⟩ := Stmt.formed_and_made h' hs'
  constructor
  · -- The reader gives both trees back, from one listing.
    intro heq
    have hlisting : s.listing = s'.listing :=
      Listing.eq_of_text_eq (s.plain_listing hformed hmade hf) (s'.plain_listing hformed' hmade' hf')
        (by rw [s.text_listing, s'.text_listing, heq])
    rw [← s.stmt_listing hformed hmade hf, ← s'.stmt_listing hformed' hmade' hf', hlisting]
  · intro heq
    rw [← s.dump_erased, ← s'.dump_erased, heq]

theorem Stmt.mem_of_dumps (ss : List Stmt) {text : String} (h : text ∈ Stmt.dumps ss) :
    ∃ s ∈ Stmt.insideAll ss, s.dump = text := by
  induction ss with
  | nil => cases h
  | cons s ss ih =>
    rcases List.mem_cons.1 h with rfl | h
    · exact ⟨s, List.mem_cons_self, rfl⟩
    · obtain ⟨u, hu, htext⟩ := ih h
      exact ⟨u, List.mem_append_right _ hu, htext⟩

/-- A text that looks like the rest of a list stands between quotes, on one line and on several. -/
theorem Stmt.erased_eq_of_dump :
    ∃ s ∈ Stmt.insideAll (readSource 0 "if (a) print \"1) (+ 2\" + -a;").statements,
      ∃ s' ∈ Stmt.insideAll (readSource 7 "if (a)\n  print \"1) (+ 2\"\n  + -a;").statements,
        s.dump = "(if a (print (+ \"1) (+ 2\" (- a))))" ∧ s.erased = s'.erased := by
  obtain ⟨s, hs, hdump⟩ := Stmt.mem_of_dumps (readSource 0 "if (a) print \"1) (+ 2\" + -a;").statements
    (show "(if a (print (+ \"1) (+ 2\" (- a))))" ∈ _ by decide +kernel)
  obtain ⟨s', hs', hdump'⟩ := Stmt.mem_of_dumps (readSource 7 "if (a)\n  print \"1) (+ 2\"\n  + -a;").statements
    (show "(if a (print (+ \"1) (+ 2\" (- a))))" ∈ _ by decide +kernel)
  refine ⟨s, hs, s', hs', hdump, ?_⟩
  refine (Stmt.dump_eq_iff (by decide +kernel) (by decide +kernel) hs hs' ?_ ?_).1 (hdump.trans hdump'.symm)
  · clear hdump
    revert s
    decide +kernel
  · clear hdump'
    revert s'
    decide +kernel

end Scriptlet
