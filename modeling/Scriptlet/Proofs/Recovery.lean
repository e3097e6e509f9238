import Mathlib
import Scriptlet.Proofs.Joining
import Scriptlet.Proofs.Locality

/-!
# Recovery is local

A text in which some simple statements are broken is read as if they were not there, however deep in blocks and
functions they stand (`parse_recovers_locally`).  A broken statement is given up in front of its semicolon, as it is
when it stands alone (`breaks_simple`); recovery then passes exactly that semicolon, so the next declaration is met at
its first token.
-/
namespace Scriptlet

open Grammar
open Parse

/-! ## Segments of a text -/

/-- A declaration that is read without a fault when it stands alone. -/
structure Whole where
  tokens : List Token
  statement : Stmt
  unended : ∀ t ∈ tokens, t.kind ≠ .eof
  clean : (parse 0 tokens).faults = []
  single : (parse 0 tokens).statements = [statement]

/-- What may stand in a broken statement: nothing that ends one or begins another. -/
def midStatement (k : Kind) : Bool :=
  !(k = .eof || k = .semicolon || k = .leftBrace || k = .rightBrace || k.beginsStatement)

/-- What a broken statement may begin with. -/
def leads (k : Kind) : Bool := (midStatement k && k ≠ .elseWord) || leadsSimple k || k = .classWord

/-- A simple statement of which nothing is left when it stands alone. -/
structure Broken where
  words : List Token
  semicolon : Word .semicolon
  head : ∀ t ∈ words.head?, leads t.kind = true
  tail : ∀ t ∈ words.tail, midStatement t.kind = true
  dropped : (parse 0 (words ++ [semicolon.1])).statements = []

namespace Broken

def tokens (d : Broken) : List Token := d.words ++ [d.semicolon.1]

/-- The faults of the statement when it stands alone. -/
def faults (d : Broken) : List Fault := (parse 0 d.tokens).faults

end Broken

mutual
inductive Segment where
  | whole (declaration : Whole)
  | broken (statement : Broken)
  | block (opening : Word .leftBrace) (body : Segments) (closing : Word .rightBrace)
  | function (word : Word .funWord) (header : Header) (limit : header.names.length ≤ maxArity)
      (opening : Word .leftBrace) (body : Segments) (closing : Word .rightBrace)

inductive Segments where
  | nil
  | cons (first : Segment) (rest : Segments)
end

mutual
def Segment.yield : Segment → List Token
  | .whole declaration => declaration.tokens
  | .broken statement => statement.tokens
  | .block opening body closing => opening.1 :: (body.yield ++ [closing.1])
  | .function word header _ opening body closing =>
    word.1 :: (header.yield ++ opening.1 :: (body.yield ++ [closing.1]))

def Segments.yield : Segments → List Token
  | .nil => []
  | .cons first rest => first.yield ++ rest.yield
end

mutual
/-- What is left of a segment without the broken statements in it. -/
def Segment.statements : Segment → List Stmt
  | .whole declaration => [declaration.statement]
  | .broken _ => []
  | .block _ body _ => [.block body.statements]
  | .function _ header _ _ body _ => [.function header.name.1 header.names body.statements]

def Segments.statements : Segments → List Stmt
  | .nil => []
  | .cons first rest => first.statements ++ rest.statements
end

mutual
/-- The faults of the broken statements, in order. -/
def Segment.faults : Segment → List Fault
  | .whole _ => []
  | .broken statement => statement.faults
  | .block _ body _ => body.faults
  | .function _ _ _ _ body _ => body.faults

def Segments.faults : Segments → List Fault
  | .nil => []
  | .cons first rest => first.faults ++ rest.faults
end

/-! ## How a segment begins -/

/-- The kinds that neither end a list of declarations nor go on with an `if`. -/
def beginsSegment (k : Kind) : Bool := !(k = .eof || k = .rightBrace || k = .elseWord)

theorem beginsSegment_of_opens {k : Kind} (h : opens k = true) : beginsSegment k = true := by
  cases k <;> first | rfl | cases h

theorem beginsSegment_of_leads {k : Kind} (h : leads k = true) : beginsSegment k = true := by
  cases k <;> first | rfl | cases h

theorem opensCompound_of_leads {k : Kind} (h : leads k = true) : opensCompound k = false := by
  cases k <;> first | rfl | cases h

theorem parsedTokens_of_unended {ts : List Token} (h : ∀ t ∈ ts, t.kind ≠ .eof) : parsedTokens ts = ts :=
  List.takeWhile_eq_self_iff.2 fun t ht => decide_eq_true (h t ht)

/-- Reading does not depend on how the nodes are numbered, the numbers apart. -/
theorem parse_renumbered (j k : Nat) (tokens : List Token) :
    Stmt.AllAlike .unnumbered (parse j tokens).statements (parse k tokens).statements ∧
      (parse j tokens).faults = (parse k tokens).faults := by
  have hstart : (startOf j tokens).Alike .unnumbered (startOf k tokens) :=
    ⟨List.forall₂_same.2 fun _ _ => rfl, rfl, fun _ => trivial, .nil⟩
  obtain ⟨hs, hf, -⟩ := parse_alike hstart
  refine ⟨hs, ?_⟩
  have hf := hf.imp fun _ _ (h : Fault.Alike .unnumbered _ _) => h.eq id
  rwa [List.forall₂_eq_eq_eq] at hf

namespace Whole

/-- A whole declaration is derived by the grammar, and stands for its statement however its nodes are numbered. -/
theorem exists_form (d : Whole) : ∃ f : Form .declaration, f.yield = d.tokens ∧ f.Limited ∧ f.ElseNearest ∧
    ∀ k, (f.build k).1.Alike .unnumbered d.statement := by
  obtain ⟨fs, hy, hl, hn⟩ := exists_nearest_of_faults d.clean
  have hbuild (k : Nat) : (parse k d.tokens).statements = (fs.build k).1 := by rw [parse_of_nearest hy hl hn]
  rw [parsedTokens_of_unended d.unended] at hy
  have hsingle : (fs.build 0).1 = [d.statement] := (hbuild 0).symm.trans d.single
  cases fs with
  | nil => cases hsingle
  | cons f rest =>
    cases rest with
    | cons _ _ => simp [Forms.build] at hsingle
    | nil =>
      refine ⟨f, by simpa [Forms.yield] using hy, hl.1, hn.1, fun k => ?_⟩
      have h := (parse_renumbered k 0 d.tokens).1
      rw [hbuild k, d.single] at h
      cases h with
      | cons h _ => exact h

end Whole

theorem Segment.exists_head (d : Segment) : ∃ t ts, d.yield = t :: ts ∧ beginsSegment t.kind = true := by
  cases d with
  | whole declaration =>
    obtain ⟨f, hy, -⟩ := declaration.exists_form
    obtain ⟨t, ts, h, ho⟩ := f.declaration_head
    exact ⟨t, ts, hy.symm.trans h, beginsSegment_of_opens ho⟩
  | broken statement =>
    obtain ⟨words, semicolon, head, -, -⟩ := statement
    cases words with
    | nil => exact ⟨semicolon.1, [], rfl, by rw [semicolon.kind_eq]; rfl⟩
    | cons t ts => exact ⟨t, ts ++ [semicolon.1], rfl, beginsSegment_of_leads (head t rfl)⟩
  | block opening _ _ => exact opening.head _ rfl
  | function word _ _ _ _ _ => exact word.head _ rfl

/-! ## Steps that may note something -/

/-- From the cursor the rule comes to the tokens `r`, notes `fs` and gives something with the property. -/
def Parse.Passes {α : Type} (p : Parse α) (c : Cursor) (r : List Token) (fs : List Fault) (Q : α → Prop) : Prop :=
  ∃ a k, p c = (some a, { rest := r, stop := c.stop, fresh := k, faults := c.faults ++ fs }) ∧ Q a

namespace Parse

variable {α β : Type} {p : Parse α} {c : Cursor} {r : List Token} {fs : List Fault} {Q : α → Prop}

theorem Passes.bind {f : α → Parse β} {r' : List Token} {fs' : List Fault} {Q' : β → Prop} (h : p.Passes c r fs Q)
    (hf : ∀ a k, Q a → (f a).Passes { rest := r, stop := c.stop, fresh := k, faults := c.faults ++ fs } r' fs' Q') :
    (p >>= f).Passes c r' (fs ++ fs') Q' := by
  obtain ⟨a, k, hp, ha⟩ := h
  obtain ⟨b, k', hb, hQ⟩ := hf a k ha
  refine ⟨b, k', ?_, hQ⟩
  rw [bind_def, hp]
  dsimp only
  rw [hb, List.append_assoc]

/-- A step that notes nothing. -/
theorem passes_of_clean {a : α} {k : Nat} (h : Clean p c a (c.moved r k)) (ha : Q a) : p.Passes c r [] Q :=
  ⟨a, k, by rw [h.1, List.append_nil]; rfl, ha⟩

theorem passes_pure {a : α} (h : Q a) : (pure a : Parse α).Passes c c.rest [] Q :=
  passes_of_clean (clean_pure.2 ⟨rfl, rfl⟩) h

theorem recovering_of_some {a : α} {c' : Cursor} (h : p c = (some a, c')) : recovering p c = (some (some a), c') := by
  unfold recovering
  rw [h]

theorem recovering_of_none {c' : Cursor} (h : p c = (none, c')) :
    recovering p c = (some none, { c' with rest := skip c'.rest }) := by
  unfold recovering
  rw [h]

theorem Passes.recovering (h : p.Passes c r fs Q) :
    (recovering p).Passes c r fs fun o => ∃ a, o = some a ∧ Q a := by
  obtain ⟨a, k, hp, ha⟩ := h
  exact ⟨some a, k, recovering_of_some hp, a, rfl, ha⟩

end Parse

/-! ## Lists of declarations -/

namespace Parse

variable {close : Kind} {one : Parse (Option Stmt)} {c : Cursor}

theorem declarations_at_end (h : c.sees close = true ∨ c.rest = []) : ∀ m, declarations close one m c = (some [], c)
  | 0 => rfl
  | m + 1 => by
    have hsees : sees close c = (some (c.sees close), c) := rfl
    rw [declarations_succ, bind_def, hsees]
    rcases h with h | h
    · rw [h]
      rfl
    · have hs : c.sees close = false := by simp [Cursor.sees, h]
      have hend : atEnd c = (some true, c) := by simp [atEnd, h]
      rw [hs]
      change (atEnd >>= _) c = _
      rw [bind_def, hend]
      rfl

theorem declarations_next {t : Token} {ts : List Token} (hr : c.rest = t :: ts) (ht : t.kind ≠ close) (m : Nat) :
    declarations close one (m + 1) c =
      (one >>= fun o => declarations close one m >>= fun ss => pure (o.toList ++ ss)) c := by
  have hsees : sees close c = (some false, c) := by simp [sees, Cursor.sees, hr, ht]
  have hend : atEnd c = (some false, c) := by simp [atEnd, hr]
  rw [declarations_succ, bind_def, hsees]
  change (atEnd >>= _) c = _
  rw [bind_def, hend]
  rfl

/-- A list of declarations is never given up itself. -/
theorem exists_declarations (close : Kind) (p : Parse Stmt) :
    ∀ (m : Nat) (c : Cursor), ∃ ss c', declarations close (recovering p) m c = (some ss, c')
  | 0, c => ⟨[], c, rfl⟩
  | m + 1, c => by
    cases hr : c.rest with
    | nil => exact ⟨[], c, declarations_at_end (.inr hr) _⟩
    | cons t ts =>
      by_cases ht : t.kind = close
      · exact ⟨[], c, declarations_at_end (.inl (by simp [Cursor.sees, hr, ht])) _⟩
      · obtain ⟨o, c₁, ho⟩ : ∃ o c₁, recovering p c = (some o, c₁) := by
          rcases hp : p c with ⟨_ | a, c₁⟩
          · exact ⟨_, _, recovering_of_none hp⟩
          · exact ⟨_, _, recovering_of_some hp⟩
        obtain ⟨ss, c₂, hs⟩ := exists_declarations close p m c₁
        refine ⟨o.toList ++ ss, c₂, ?_⟩
        rw [declarations_next hr ht, bind_def, ho]
        dsimp only
        rw [bind_def, hs]
        rfl

end Parse

/-- The first declaration of a text before any recovery. -/
def firstDeclared (k : Nat) (tokens : List Token) : Option Stmt × Cursor :=
  declared (parsedTokens tokens).length (statement (parsedTokens tokens).length) (body (parsedTokens tokens).length)
    (startOf k tokens)

section

variable {k : Nat} {tokens ts : List Token} {t : Token} {c : Cursor}

theorem program_eq (n : Nat) :
    program n = declarations .eof (recovering (declared n (statement n) (body n))) n := rfl

theorem ne_eof_of_parsedTokens (h : parsedTokens tokens = t :: ts) : t.kind ≠ .eof := by
  have ht : t ∈ parsedTokens tokens := by rw [h]; exact List.mem_cons_self
  simpa using List.mem_takeWhile_imp ht

theorem statements_of_firstDeclared (hts : parsedTokens tokens = t :: ts) {s : Stmt}
    (h : firstDeclared k tokens = (some s, c)) : (parse k tokens).statements ≠ [] := by
  unfold firstDeclared at h
  rw [hts, List.length_cons] at h
  obtain ⟨ss, c', hss⟩ := exists_declarations .eof
    (declared (ts.length + 1) (statement (ts.length + 1)) (body (ts.length + 1))) ts.length c
  rw [parse_eq, hts, List.length_cons, program_eq, declarations_next hts (ne_eof_of_parsedTokens hts), bind_def,
    recovering_of_some h]
  dsimp only
  rw [bind_def, hss]
  exact List.cons_ne_nil _ _

theorem faults_of_firstDeclared (hts : parsedTokens tokens = t :: ts) (h : firstDeclared k tokens = (none, c))
    (hskip : skip c.rest = []) : (parse k tokens).faults = c.faults := by
  unfold firstDeclared at h
  rw [hts, List.length_cons] at h
  rw [parse_eq, hts, List.length_cons, program_eq, declarations_next hts (ne_eof_of_parsedTokens hts), bind_def,
    recovering_of_none h]
  dsimp only
  rw [hskip, bind_def, declarations_at_end (.inr rfl)]
  rfl

end

/-! ## Broken statements -/

/-- Recovery passes exactly the semicolon of a broken statement, wherever in it the fault was. -/
theorem skip_semicolon (w : Word .semicolon) (r : List Token) : ∀ x : List Token, (∀ t ∈ x, t.kind ≠ .semicolon) →
    (∀ t ∈ x.tail, t.kind.beginsStatement = false) → skip (x ++ w.1 :: r) = r
  | [], _, _ => by
    rw [List.nil_append, skip, if_pos w.kind_eq]
  | t :: ts, hs, hb => by
    have hnext : (ts ++ w.1 :: r).head?.any (·.kind.beginsStatement) = false := by
      cases ts with
      | nil => simp [w.kind_eq, Kind.beginsStatement]
      | cons u us => simpa using hb u List.mem_cons_self
    rw [List.cons_append, skip, if_neg (hs t List.mem_cons_self), hnext, if_neg (by decide)]
    exact skip_semicolon w r ts (fun u hu => hs u (List.mem_cons_of_mem t hu)) fun u hu =>
      hb u (List.mem_of_mem_tail hu)

namespace Broken

variable (d : Broken)

theorem kind_of_mem {t : Token} (h : t ∈ d.words) : (leads t.kind || midStatement t.kind) = true := by
  obtain ⟨words, semicolon, head, tail, _⟩ := d
  cases words with
  | nil => cases h
  | cons u us =>
    rcases List.mem_cons.1 h with rfl | h
    · rw [head t rfl, Bool.true_or]
    · rw [tail t h, Bool.or_true]

theorem ne_of_mem {kind : Kind} (hk : (leads kind || midStatement kind) = false) {t : Token} (h : t ∈ d.words) :
    t.kind ≠ kind := by
  rintro rfl
  rw [d.kind_of_mem h] at hk
  cases hk

/-- What is left of a broken statement begins no other one, but possibly at its first token. -/
theorem mem_tail {y : List Token} (hy : y <:+ d.words) {t : Token} (h : t ∈ y.tail) : t ∈ d.words.tail := by
  obtain ⟨z, hz⟩ := hy
  rw [← hz]
  cases z with
  | nil => exact h
  | cons u us => exact List.mem_append_right us (List.mem_of_mem_tail h)

theorem skip_eq {y : List Token} (hy : y <:+ d.words) (r : List Token) : skip (y ++ d.semicolon.1 :: r) = r := by
  refine skip_semicolon d.semicolon r y (fun t ht => d.ne_of_mem rfl (hy.mem ht)) fun t ht => ?_
  have hplain : midStatement t.kind = true := d.tail t (d.mem_tail hy ht)
  cases hb : t.kind.beginsStatement
  · rfl
  · simp [midStatement, hb] at hplain

theorem unended : ∀ t ∈ d.tokens, t.kind ≠ .eof := by
  intro t ht
  rcases List.mem_append.1 ht with ht | ht
  · exact d.ne_of_mem rfl ht
  · rw [List.mem_singleton.1 ht, d.semicolon.kind_eq]
    decide

/-- Whatever follows it, a broken statement is read by the rule for simple ones. -/
theorem declared_eq {n : Nat} {body : Parse (List Stmt)} {c : Cursor} {r : List Token} (hr : c.rest = d.tokens ++ r) :
    declared (n + 1) (statement (n + 1)) body c = simple (n + 1) c := by
  obtain ⟨words, semicolon, head, _, _⟩ := d
  cases words with
  | nil => exact declared_eq_simple hr (by rw [semicolon.kind_eq]; rfl)
  | cons t ts => exact declared_eq_simple hr (opensCompound_of_leads (head t rfl))

/-- The end of the text in which the statement stands alone. -/
def setting : Setting := ⟨[], (startOf 0 d.tokens).stop, []⟩

theorem startOf_eq (k : Nat) : startOf k d.tokens = d.setting.cursor d.semicolon d.words k [] := by
  unfold startOf Setting.cursor
  rw [parsedTokens_of_unended d.unended]
  rfl

theorem firstDeclared_eq (k : Nat) : firstDeclared k d.tokens =
    simple (d.words.length + 1) (d.setting.cursor d.semicolon d.words k []) := by
  have hlen : d.tokens.length = d.words.length + 1 := by simp [tokens]
  unfold firstDeclared
  rw [parsedTokens_of_unended d.unended, hlen, d.startOf_eq]
  exact d.declared_eq (List.append_nil _).symm

theorem exists_head : ∃ t ts, parsedTokens d.tokens = t :: ts := by
  obtain ⟨t, ts, h, -⟩ := (Segment.broken d).exists_head
  exact ⟨t, ts, (parsedTokens_of_unended d.unended).trans h⟩

/-- Alone, the statement is given up. -/
theorem simple_eq_none (k : Nat) :
    (simple (d.words.length + 1) (d.setting.cursor d.semicolon d.words k [])).1 = none := by
  have hdropped : (parse k d.tokens).statements = [] := by
    have hs := (parse_renumbered k 0 d.tokens).1
    rw [show (parse 0 d.tokens).statements = [] from d.dropped] at hs
    generalize (parse k d.tokens).statements = ss at hs ⊢
    cases hs
    rfl
  obtain ⟨t, ts, hts⟩ := d.exists_head
  rw [← d.firstDeclared_eq]
  rcases h : firstDeclared k d.tokens with ⟨_ | s, c⟩
  · rfl
  · exact absurd hdropped (statements_of_firstDeclared hts h)

/-- What was noted by then are its faults. -/
theorem faults_eq {k k' : Nat} {y : List Token} {fs : List Fault} (hy : y <:+ d.words)
    (h : simple (d.words.length + 1) (d.setting.cursor d.semicolon d.words k []) =
      (none, d.setting.cursor d.semicolon y k' fs)) : d.faults = fs := by
  obtain ⟨t, ts, hts⟩ := d.exists_head
  rw [← d.firstDeclared_eq] at h
  exact (parse_renumbered 0 k d.tokens).2.trans (faults_of_firstDeclared hts h (d.skip_eq hy []))

/-- **A broken statement is passed as if it stood alone**: nothing is left of it but its own faults. -/
theorem passes {n k : Nat} {c : Cursor} {r : List Token} (hn : c.rest.length ≤ k) (hr : c.rest = d.tokens ++ r) :
    (recovering (declared k (statement k) (body n))).Passes c r d.faults (· = none) := by
  have hlen : d.words.length + 1 + r.length ≤ k := by
    simp [hr, tokens] at hn
    omega
  obtain ⟨j, rfl⟩ : ∃ j, k = j + 1 := ⟨k - 1, by omega⟩
  have hc : c = Setting.cursor ⟨r, c.stop, c.faults⟩ d.semicolon d.words c.fresh [] := by
    unfold Setting.cursor
    rw [List.append_nil, show d.words ++ d.semicolon.1 :: r = c.rest by rw [hr, tokens]; simp]
  have hdeclared : declared (j + 1) (statement (j + 1)) (body n) c = simple (j + 1) c := d.declared_eq hr
  have hbreaks : Breaks d.semicolon d.words.length (simple (d.words.length + 1)) (simple (j + 1)) :=
    breaks_simple (by omega) (by omega)
  have hnone := d.simple_eq_none c.fresh
  -- alone and here the same tokens are left in front of the semicolon, and the same was noted
  obtain ⟨o, y, k', fs, hy, halone, hhere⟩ :=
    hbreaks d.setting ⟨r, c.stop, c.faults⟩ d.words c.fresh [] le_rfl hnone
  rw [halone] at hnone
  obtain rfl : o = none := hnone
  rw [← hc, ← hdeclared] at hhere
  refine ⟨none, k', ?_, rfl⟩
  rw [recovering_of_none hhere, d.faults_eq hy halone]
  dsimp only [Setting.cursor]
  rw [d.skip_eq hy r]

end Broken

/-! ## Texts -/

theorem Stmt.AllAlike.append {L : Likeness} {ss ss' ts ts' : List Stmt} (hs : Stmt.AllAlike L ss ss')
    (ht : Stmt.AllAlike L ts ts') : Stmt.AllAlike L (ss ++ ts) (ss' ++ ts') := by
  induction ss generalizing ss' with
  | nil =>
    cases hs
    exact ht
  | cons s ss ih =>
    cases hs with
    | cons h hs => exact .cons h (ih hs)

namespace Parse

variable {k : Nat} {c : Cursor} {ts : List Token}

theorem declared_fun {statement : Parse Stmt} {body : Parse (List Stmt)} (word : Word .funWord)
    (hr : c.rest = word.1 :: ts) : declared k statement body c = functionDeclaration k body { c with rest := ts } := by
  rw [declared, accept_bind, take?_bind_of_kind hr word.2]
  rfl

theorem declared_leftBrace {inner : Parse (List Stmt)} (opening : Word .leftBrace) (hr : c.rest = opening.1 :: ts) :
    declared (k + 1) (statement (k + 1)) inner c =
      (block (body k) >>= fun ss => pure (Stmt.block ss)) { c with rest := ts } := by
  have hk := opening.kind_eq
  have hstatement : statement (k + 1) c = statementWith (k + 1) (statement k) (body k) c := rfl
  have hfrom : statementFrom (k + 1) (statement k) (body k) opening.1 opening.1.kind =
      block (body k) >>= fun ss => pure (Stmt.block ss) := by
    rw [hk]
    rfl
  rw [declared_eq_statement hr (by rw [hk]; decide) (by rw [hk]; decide), hstatement, statementWith_eq,
    take?_bind_of_kind hr (by rw [hk]; rfl)]
  exact congrFun hfrom _

/-- The rule for a function's head. -/
def header (m : Nat) : Parse (Token × List Token) :=
  expect .identifier "function name" >>= fun name => expect .leftParen "'(' after function name" >>= fun _ =>
    listed (expect .identifier "parameter name") "parameters" m >>= fun ps =>
      expect .rightParen "')' after parameters" >>= fun _ => pure (name, ps)

theorem functionDeclaration_eq_header (m : Nat) (body : Parse (List Stmt)) : functionDeclaration m body =
    header m >>= fun h => expect .leftBrace "'\x7b' before function body" >>= fun _ =>
      block body >>= fun ss => pure (.function h.1 h.2 ss) := by
  simp only [header, functionDeclaration_eq, bind_assoc, pure_bind]

end Parse

theorem Whole.passes (d : Whole) {n k : Nat} {c : Cursor} {r : List Token} (hk : k ≤ n + 1) (hn : c.rest.length ≤ k)
    (hr : c.rest = d.tokens ++ r) (hw : Without (· = .elseWord) r) :
    (recovering (declared k (Parse.statement k) (body n))).Passes c r []
      fun o => ∃ s, o = some s ∧ s.Alike .unnumbered d.statement := by
  obtain ⟨f, hy, hl, hne, halike⟩ := d.exists_form
  have hreads := reads_declared (grows_statement_and_body n).2 hk (reads_statement_and_body k).1
    (reads_statement_and_body n).2
  have hclean := hreads.clean (d := f) hn (hr.trans (by rw [← hy]; rfl)) ⟨hl, hne, fun _ => hw⟩
  exact Passes.recovering (Q := fun s => s.Alike .unnumbered d.statement) (passes_of_clean hclean (halike c.fresh))

/-- The list of declarations that the segments make up is read past every broken statement in it. -/
def Segments.Passed (d : Segments) : Prop := ∀ ⦃close : Kind⦄ ⦃n k m : Nat⦄ ⦃c : Cursor⦄ ⦃r : List Token⦄,
  close = .eof ∨ close = .rightBrace → k ≤ n + 1 → m ≤ k → c.rest.length ≤ m → c.rest = d.yield ++ r →
  (r = [] ∨ ∃ (t : Word close) (us : List Token), r = t.1 :: us) →
  (declarations close (recovering (declared k (statement k) (body n))) m).Passes c r d.faults
    fun ss => Stmt.AllAlike .unnumbered ss d.statements

/-- The inside of a block, up to its closing brace. -/
theorem Segments.Passed.block {d : Segments} (h : d.Passed) {m : Nat} {c : Cursor} {closing : Word .rightBrace}
    {r : List Token} (hn : c.rest.length ≤ m) (hr : c.rest = d.yield ++ closing.1 :: r) :
    (block (body m)).Passes c r d.faults fun ss => Stmt.AllAlike .unnumbered ss d.statements := by
  obtain ⟨j, rfl⟩ : ∃ j, m = j + 1 := ⟨m - 1, by simp [hr] at hn; omega⟩
  rw [← List.append_nil d.faults, Parse.block, body_succ]
  refine (h (.inr rfl) le_rfl le_rfl hn hr (.inr ⟨closing, r, rfl⟩)).bind fun ss k hss => ?_
  refine ⟨ss, k, ?_, hss⟩
  rw [bind_def, expect_cons rfl, if_pos closing.kind_eq, List.append_nil]
  rfl

/-- What follows a segment is no `else`, for a segment begins with none. -/
theorem Segments.without_else (d : Segments) {close : Kind} (hc : close = .eof ∨ close = .rightBrace) {r : List Token}
    (hr : r = [] ∨ ∃ (t : Word close) (us : List Token), r = t.1 :: us) : Without (· = .elseWord) (d.yield ++ r) := by
  cases d with
  | nil =>
    rcases hr with rfl | ⟨t, us, rfl⟩
    · exact without_nil _
    · refine without_cons.2 (decide_eq_false ?_)
      rw [t.kind_eq]
      rcases hc with rfl | rfl <;> decide
  | cons first rest =>
    have h := without_of_head first.exists_head (@ne_of_sort _ .elseWord rfl) (rest.yield ++ r)
    simpa [Segments.yield] using h

mutual
theorem Segment.passes : ∀ (d : Segment) {n k : Nat} {c : Cursor} {r : List Token}, k ≤ n + 1 → c.rest.length ≤ k →
    c.rest = d.yield ++ r → Without (· = .elseWord) r →
    (recovering (declared k (statement k) (body n))).Passes c r d.faults
      fun o => Stmt.AllAlike .unnumbered o.toList d.statements
  | .whole d, n, k, c, r, hk, hn, hr, hw => by
    obtain ⟨o, j, ho, s, rfl, hs⟩ := d.passes hk hn hr hw
    exact ⟨some s, j, ho, .cons hs .nil⟩
  | .broken d, n, k, c, r, _, hn, hr, _ => by
    obtain ⟨o, j, ho, rfl⟩ := d.passes hn hr
    exact ⟨none, j, ho, .nil⟩
  | .block opening body closing, n, k, c, r, hk, hn, hr, _ => by
    have hr : c.rest = opening.1 :: (body.yield ++ closing.1 :: r) := by
      rw [hr]
      simp [Segment.yield]
    obtain ⟨j, rfl⟩ : ∃ j, k = j + 1 := ⟨k - 1, by simp [hr] at hn; omega⟩
    have hlen : (body.yield ++ closing.1 :: r).length ≤ j := by simp [hr] at hn; simp; omega
    obtain ⟨ss, i, hss, halike⟩ := (Segments.passes body).block (c := { c with rest := body.yield ++ closing.1 :: r })
      hlen rfl
    refine ⟨some (.block ss), i, recovering_of_some ?_, .cons (.block halike) .nil⟩
    rw [declared_leftBrace opening hr, bind_def, hss]
    rfl
  | .function word header limit opening body closing, n, k, c, r, hk, hn, hr, _ => by
    have hr : c.rest = word.1 :: (header.yield ++ opening.1 :: (body.yield ++ closing.1 :: r)) := by
      rw [hr]
      simp [Segment.yield]
    -- the body has a bound of its own, which is smaller than `k` by one at most
    have hlen : (body.yield ++ closing.1 :: r).length ≤ n := by simp [hr] at hn; simp; omega
    have hheader : Clean (Parse.header k) { c with rest := header.yield ++ opening.1 :: (body.yield ++ closing.1 :: r) }
        (header.name.1, header.names) { c with rest := opening.1 :: (body.yield ++ closing.1 :: r) } :=
      (clean_header (fun _ _ => grows_pure _) (by simp [hr] at hn; simp; omega)).2
        ⟨header, _, rfl, limit, clean_pure.2 ⟨rfl, rfl⟩⟩
    obtain ⟨ss, i, hss, halike⟩ := (Segments.passes body).block (c := { c with rest := body.yield ++ closing.1 :: r })
      hlen rfl
    refine ⟨some (.function header.name.1 header.names ss), i, recovering_of_some ?_,
      .cons (.function rfl (List.forall₂_same.2 fun _ _ => rfl) halike) .nil⟩
    rw [declared_fun word hr, functionDeclaration_eq_header, bind_def, hheader.1]
    dsimp only
    rw [bind_def, expect_cons rfl, if_pos opening.kind_eq]
    dsimp only
    rw [bind_def, hss]
    rfl

theorem Segments.passes : ∀ d : Segments, d.Passed
  | .nil => by
    intro close n k m c r _ _ _ _ hr hend
    have hr : c.rest = r := hr
    refine ⟨[], c.fresh, ?_, .nil⟩
    rw [declarations_at_end, Segments.faults, List.append_nil, ← hr]
    rcases hend with rfl | ⟨t, us, rfl⟩
    · exact .inr hr
    · exact .inl (by simp [Cursor.sees, hr, t.kind_eq])
  | .cons first rest => by
    intro close n k m c r hc hk hm hn hr hend
    have hr : c.rest = first.yield ++ (rest.yield ++ r) := by
      rw [hr]
      simp [Segments.yield]
    obtain ⟨t, ts, ht, hbegins⟩ := first.exists_head
    have hne : t.kind ≠ close := of_decide_eq_false (ne_of_sort (by rcases hc with rfl | rfl <;> rfl) _ hbegins)
    obtain ⟨j, rfl⟩ : ∃ j, m = j + 1 := ⟨m - 1, by simp [hr, ht] at hn; omega⟩
    have hlen : (rest.yield ++ r).length ≤ j := by simp [hr, ht] at hn; simp; omega
    have hfirst := Segment.passes first hk (hn.trans hm) hr (rest.without_else hc hend)
    have hboth : (recovering (declared k (statement k) (body n)) >>= fun o =>
        declarations close (recovering (declared k (statement k) (body n))) j >>= fun ss =>
          pure (o.toList ++ ss)).Passes c r (first.faults ++ (rest.faults ++ [])) fun ss =>
            Stmt.AllAlike .unnumbered ss (first.statements ++ rest.statements) :=
      hfirst.bind fun o i ho => (Segments.passes rest hc hk (Nat.le_of_succ_le hm) hlen rfl hend).bind fun ss i' hss =>
        passes_pure (ho.append hss)
    obtain ⟨ss, i, hss, halike⟩ := hboth
    refine ⟨ss, i, ?_, halike⟩
    rw [declarations_next (hr.trans (by rw [ht]; rfl)) hne, hss, List.append_nil]
    rfl
end

/-! No end stands among the tokens of segments, so all of them are read. -/

theorem Grammar.Parameters.unended (d : Parameters) : ∀ t ∈ d.yield, t.kind ≠ .eof := by
  induction d with
  | last name => simp [Parameters.yield, name.kind_eq]
  | more name comma rest ih => simpa [Parameters.yield, name.kind_eq, comma.kind_eq] using ih

theorem Grammar.Header.unended (h : Header) : ∀ t ∈ h.yield, t.kind ≠ .eof := by
  obtain ⟨name, opening, params, closing⟩ := h
  cases params with
  | none => simp [Header.yield, name.kind_eq, opening.kind_eq, closing.kind_eq]
  | some d =>
    have hd := d.unended
    simp only [Header.yield, Option.elim_some, List.mem_cons, List.mem_append, List.not_mem_nil, or_false]
    rintro t (rfl | rfl | ht | rfl)
    · simp [name.kind_eq]
    · simp [opening.kind_eq]
    · exact hd t ht
    · simp [closing.kind_eq]

mutual
theorem Segment.unended : ∀ d : Segment, ∀ t ∈ d.yield, t.kind ≠ .eof
  | .whole d, t, ht => d.unended t ht
  | .broken d, t, ht => d.unended t ht
  | .block opening body closing, t, ht => by
    simp only [Segment.yield, List.mem_cons, List.mem_append, List.not_mem_nil, or_false] at ht
    rcases ht with rfl | ht | rfl
    · simp [opening.kind_eq]
    · exact Segments.unended body t ht
    · simp [closing.kind_eq]
  | .function word header _ opening body closing, t, ht => by
    simp only [Segment.yield, List.mem_cons, List.mem_append, List.not_mem_nil, or_false] at ht
    rcases ht with rfl | ht | rfl | ht | rfl
    · simp [word.kind_eq]
    · exact header.unended t ht
    · simp [opening.kind_eq]
    · exact Segments.unended body t ht
    · simp [closing.kind_eq]

theorem Segments.unended : ∀ d : Segments, ∀ t ∈ d.yield, t.kind ≠ .eof
  | .cons first rest, t, ht => by
    rcases List.mem_append.1 ht with ht | ht
    · exact Segment.unended first t ht
    · exact Segments.unended rest t ht
end

/-- **Recovery is local.**  What is read of a text made of segments are the statements of the segments without the
broken ones, wherever these stand, the numbers of the nodes apart; and what is noted are the faults that each broken
statement has when it stands alone, in order. -/
theorem parse_recovers_locally (fresh : Nat) (d : Segments) (stop : Word .eof) :
    Stmt.AllAlike .unnumbered (parse fresh (d.yield ++ [stop.1])).statements d.statements ∧
      (parse fresh (d.yield ++ [stop.1])).faults = d.faults := by
  have hparsed : parsedTokens (d.yield ++ [stop.1]) = d.yield := by
    unfold parsedTokens
    rw [List.takeWhile_append_of_pos fun t ht => decide_eq_true (d.unended t ht),
      List.takeWhile_cons_of_neg (by simp [stop.kind_eq]), List.append_nil]
  have hlen : (startOf fresh (d.yield ++ [stop.1])).rest.length ≤ d.yield.length := by rw [startOf, hparsed]
  have hpasses : (program d.yield.length).Passes (startOf fresh (d.yield ++ [stop.1])) [] d.faults
      fun ss => Stmt.AllAlike .unnumbered ss d.statements :=
    d.passes (.inl rfl) (Nat.le_succ _) le_rfl hlen (hparsed.trans (List.append_nil _).symm) (.inl rfl)
  obtain ⟨ss, k, hss, halike⟩ := hpasses
  rw [parse_eq, hparsed, hss]
  exact ⟨halike, rfl⟩

/-- One broken statement in the body of a function and one behind it. -/
theorem broken_statements_in_function_body : ∃ (d : Segments) (stop : Word .eof),
    d.yield ++ [stop.1] = tokensOf (scan "fun f(a) \x7b var = 1; print a; \x7d x y;") ∧
      d.statements.length = 1 ∧ d.faults.length = 2 ∧
      Stmt.AllAlike .unnumbered (parse 0 (d.yield ++ [stop.1])).statements d.statements ∧
      (parse 0 (d.yield ++ [stop.1])).faults = d.faults := by
  let one : Broken :=
    { words := [⟨.varWord, "var", 1⟩, ⟨.equal, "=", 1⟩, ⟨.number (.ofNat 1), "1", 1⟩]
      semicolon := ⟨⟨.semicolon, ";", 1⟩, rfl⟩
      head := by decide
      tail := by decide
      dropped := by rfl }
  let two : Broken :=
    { words := [⟨.identifier, "x", 1⟩, ⟨.identifier, "y", 1⟩]
      semicolon := ⟨⟨.semicolon, ";", 1⟩, rfl⟩
      head := by decide
      tail := by decide
      dropped := by rfl }
  let good : Whole :=
    { tokens := [⟨.printWord, "print", 1⟩, ⟨.identifier, "a", 1⟩, ⟨.semicolon, ";", 1⟩]
      statement := .print (.variable 0 ⟨.identifier, "a", 1⟩)
      unended := by decide
      clean := by rfl
      single := by rfl }
  let header : Header :=
    { name := ⟨⟨.identifier, "f", 1⟩, rfl⟩
      opening := ⟨⟨.leftParen, "(", 1⟩, rfl⟩
      params := some (.last ⟨⟨.identifier, "a", 1⟩, rfl⟩)
      closing := ⟨⟨.rightParen, ")", 1⟩, rfl⟩ }
  let d : Segments := .cons
    (.function ⟨⟨.funWord, "fun", 1⟩, rfl⟩ header (by decide) ⟨⟨.leftBrace, "\x7b", 1⟩, rfl⟩
      (.cons (.broken one) (.cons (.whole good) .nil)) ⟨⟨.rightBrace, "\x7d", 1⟩, rfl⟩)
    (.cons (.broken two) .nil)
  refine ⟨d, ⟨⟨.eof, "", 1⟩, rfl⟩, ?_, rfl, ?_, parse_recovers_locally 0 d _⟩
  · decide +kernel
  · rfl

end Scriptlet
