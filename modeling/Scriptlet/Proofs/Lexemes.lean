import Mathlib
import Scriptlet.Proofs.Pieces

/-!
# The lexical grammar

The texts that are tokens, blanks and comments (`Lexeme`), said without the scanner.  A text is cut where the grammar
says: each piece is the longest lexeme that the rest of the text begins with, or a string that is not closed, or a
character that begins no lexeme (`FirstPiece`, `firstPiece_iff`).  So the pieces of a text are the only ones that are
cut in this way (`segmented_iff`), and a reader gives their items one by one (`Reader.after_next`).
-/
namespace Scriptlet

/-! ## Lexemes -/

/-- The reserved words, each with its kind. -/
def reservedWords : List (String × Kind) := [
  ("and", .andWord), ("class", .classWord), ("else", .elseWord), ("false", .falseWord), ("for", .forWord),
  ("fun", .funWord), ("if", .ifWord), ("nil", .nilWord), ("or", .orWord), ("print", .printWord),
  ("return", .returnWord), ("super", .superWord), ("this", .thisWord), ("true", .trueWord), ("var", .varWord),
  ("while", .whileWord)]

/-- The marks, each with its kind. -/
def marks : List (String × Kind) := [
  ("(", .leftParen), (")", .rightParen), ("\x7b", .leftBrace), ("\x7d", .rightBrace), (",", .comma), (".", .dot),
  ("-", .minus), ("+", .plus), (";", .semicolon), ("*", .star), ("/", .slash), ("!", .bang), ("!=", .bangEqual),
  ("=", .equal), ("==", .equalEqual), ("<", .less), ("<=", .lessEqual), (">", .greater), (">=", .greaterEqual)]

/-- The texts of the lexical classes, each with the kind of its token; blanks and comments have none. -/
inductive Lexeme : List Char → Option Kind → Prop
  | blank {c : Char} (h : c ∈ [' ', '\r', '\t', '\n']) : Lexeme [c] none
  /-- Up to the end of the line, without the newline. -/
  | comment {cs : List Char} (h : '\n' ∉ cs) : Lexeme ('/' :: '/' :: cs) none
  | string {cs : List Char} (h : '"' ∉ cs) : Lexeme ('"' :: cs ++ ['"']) (some (.string (String.ofList cs)))
  | whole {ds : List Char} (h : ds ≠ []) (hd : ∀ d ∈ ds, d.isDigit = true) :
      Lexeme ds (some (.number (.ofDigits ds [])))
  | fraction {ds es : List Char} (h : ds ≠ []) (hd : ∀ d ∈ ds, d.isDigit = true) (h' : es ≠ [])
      (he : ∀ e ∈ es, e.isDigit = true) : Lexeme (ds ++ '.' :: es) (some (.number (.ofDigits ds es)))
  | reserved {word : String} {kind : Kind} (h : (word, kind) ∈ reservedWords) : Lexeme word.toList (some kind)
  | identifier {c : Char} {cs : List Char} (hc : c.isAlpha = true ∨ c = '_')
      (hcs : ∀ d ∈ cs, d.isAlphanum = true ∨ d = '_') (h : ∀ kind, (String.ofList (c :: cs), kind) ∉ reservedWords) :
      Lexeme (c :: cs) (some .identifier)
  | mark {mark : String} {kind : Kind} (h : (mark, kind) ∈ marks) : Lexeme mark.toList (some kind)

/-- The piece that a lexeme makes. -/
def Piece.ofKind : Option Kind → Piece
  | none => .gap
  | some kind => .token kind

/-- **The first piece of a text and its characters**, as the grammar has it. -/
inductive FirstPiece (text : List Char) : Piece → List Char → Prop
  /-- The longest lexeme the text begins with. -/
  | lexeme {cs : List Char} {kind : Option Kind} (h : Lexeme cs kind) (hp : cs <+: text)
      (hmax : ∀ ds other, Lexeme ds other → ds <+: text → ds.length ≤ cs.length) : FirstPiece text (.ofKind kind) cs
  /-- All of a text that begins with a quote which is never closed. -/
  | unclosed {cs : List Char} (ht : text = '"' :: cs) (h : '"' ∉ cs) : FirstPiece text .unclosed text
  /-- One character, where no lexeme begins. -/
  | stray {c : Char} {cs : List Char} (ht : text = c :: cs) (hc : c ≠ '"')
      (h : ∀ ds kind, Lexeme ds kind → ¬ ds <+: text) : FirstPiece text (.stray c) [c]

/-! ### Characters -/

theorem isDigit_eq (c : Char) : isDigit c = c.isDigit := rfl

theorem isWordStart_iff (c : Char) : isWordStart c = true ↔ c.isAlpha = true ∨ c = '_' := by
  simp [isWordStart, Char.isAlpha, Char.isUpper, Char.isLower, Char.le_def, or_comm]

theorem isWordPart_iff (c : Char) : isWordPart c = true ↔ c.isAlphanum = true ∨ c = '_' := by
  rw [isWordPart, Bool.or_eq_true, isWordStart_iff, isDigit_eq, Char.isAlphanum, Bool.or_eq_true]
  tauto

theorem isWordPart_of_word {word : String} {kind : Kind} (h : (word, kind) ∈ reservedWords) :
    ∃ c cs, word.toList = c :: cs ∧ isWordStart c = true ∧ ∀ d ∈ word.toList, isWordPart d = true := by
  have hall : (reservedWords.all fun p => p.1.toList.head?.any isWordStart && p.1.toList.all isWordPart) = true := rfl
  obtain ⟨hhead, hpart⟩ := Bool.and_eq_true_iff.1 (List.all_eq_true.1 hall _ h)
  obtain ⟨c, hc, hs⟩ := (Option.any_eq_true _ _).1 hhead
  obtain ⟨cs, hcs⟩ := List.head?_eq_some_iff.1 hc
  exact ⟨c, cs, hcs, hs, List.all_eq_true.1 hpart⟩

/-- The scanner reserves these words, and no others. -/
theorem mem_words_iff (p : String × Kind) : p ∈ Kind.words ↔ p ∈ reservedWords := by
  have hall : (∀ q ∈ Kind.words, q ∈ reservedWords) ∧ ∀ q ∈ reservedWords, q ∈ Kind.words := by decide
  exact ⟨hall.1 p, hall.2 p⟩

theorem ofWord_of_mem {word : String} {kind : Kind} (h : (word, kind) ∈ reservedWords) : Kind.ofWord word = kind := by
  have hall : ∀ p ∈ reservedWords, Kind.ofWord p.1 = p.2 := by decide
  exact hall _ h

theorem ofWord_of_not_mem {word : String} (h : ∀ kind, (word, kind) ∉ reservedWords) :
    Kind.ofWord word = .identifier := by
  unfold Kind.ofWord
  cases hl : Kind.words.lookup word with
  | none => rfl
  | some kind =>
    obtain ⟨l, l', hw, -⟩ := List.lookup_eq_some_iff.1 hl
    exact absurd ((mem_words_iff _).1 (by rw [hw]; simp)) (h kind)

/-! ## What is cut off is in the grammar -/

theorem mem_marks_of_ofMark? {c : Char} {kind : Kind} (h : Kind.ofMark? c = some kind) :
    (String.ofList [c], kind) ∈ marks := by
  unfold Kind.ofMark? at h
  split at h <;> cases h <;> decide

theorem mem_marks_of_ofComparison? {c : Char} {alone both : Kind} (h : Kind.ofComparison? c = some (alone, both)) :
    (String.ofList [c], alone) ∈ marks ∧ (String.ofList [c, '='], both) ∈ marks := by
  unfold Kind.ofComparison? at h
  split at h <;> cases h <;> decide

theorem lexeme_mark {cs : List Char} {kind : Kind} (h : (String.ofList cs, kind) ∈ marks) : Lexeme cs (some kind) := by
  have := Lexeme.mark h
  rwa [String.toList_ofList] at this

theorem takeWhile_isDigit {cs : List Char} : ∀ d ∈ cs.takeWhile isDigit, d.isDigit = true := fun _ hd =>
  List.mem_takeWhile_imp hd

theorem lexeme_cutNumber {c : Char} {cs : List Char} (hc : isDigit c = true) :
    ∃ kind, (cutNumber (c :: cs)).piece = .ofKind kind ∧ Lexeme (cutNumber (c :: cs)).chars kind := by
  have hne : (c :: cs).takeWhile isDigit ≠ [] := by simp [hc]
  unfold cutNumber
  split
  · next d ds _ =>
    split
    · next hd =>
      have hne' : (d :: ds).takeWhile isDigit ≠ [] := by simp [hd]
      exact ⟨some _, rfl, .fraction hne takeWhile_isDigit hne' takeWhile_isDigit⟩
    · exact ⟨some _, rfl, .whole hne takeWhile_isDigit⟩
  · exact ⟨some _, rfl, .whole hne takeWhile_isDigit⟩

theorem lexeme_cutWord {c : Char} {cs : List Char} (hc : isWordStart c = true) :
    ∃ kind, (cutWord (c :: cs)).piece = .ofKind kind ∧ Lexeme (cutWord (c :: cs)).chars kind := by
  have hp : isWordPart c = true := by simp [isWordPart, hc]
  have hw : (c :: cs).takeWhile isWordPart = c :: cs.takeWhile isWordPart := List.takeWhile_cons_of_pos hp
  refine ⟨some (.ofWord (String.ofList ((c :: cs).takeWhile isWordPart))), rfl, ?_⟩
  change Lexeme ((c :: cs).takeWhile isWordPart) _
  by_cases h : ∃ kind, (String.ofList ((c :: cs).takeWhile isWordPart), kind) ∈ reservedWords
  · obtain ⟨kind, h⟩ := h
    have := Lexeme.reserved h
    rw [String.toList_ofList] at this
    rwa [ofWord_of_mem h]
  · rw [not_exists] at h
    rw [ofWord_of_not_mem h]
    rw [hw] at h ⊢
    exact .identifier ((isWordStart_iff c).1 hc) (fun d hd => (isWordPart_iff d).1 (List.mem_takeWhile_imp hd)) h

theorem cutString_cases (cs : List Char) :
    (∃ content rest, cs = content ++ '"' :: rest ∧ '"' ∉ content ∧
      cutString cs = ⟨.token (.string (String.ofList content)), '"' :: content ++ ['"'], rest⟩) ∨
    ('"' ∉ cs ∧ cutString cs = ⟨.unclosed, '"' :: cs, []⟩) := by
  have hsplit := @List.takeWhile_append_dropWhile _ (fun c => decide (c ≠ '"')) cs
  have hfree : '"' ∉ cs.takeWhile (fun c => decide (c ≠ '"')) := fun h => by simpa using List.mem_takeWhile_imp h
  unfold cutString
  rcases hd : cs.dropWhile (fun c => decide (c ≠ '"')) with _ | ⟨q, rest⟩
  · rw [hd, List.append_nil] at hsplit
    rw [hsplit] at hfree ⊢
    exact .inr ⟨hfree, rfl⟩
  · have hq : q = '"' := by
      have := List.head?_dropWhile_not (fun c => decide (c ≠ '"')) cs
      rw [hd] at this
      simpa using this
    subst hq
    rw [hd] at hsplit
    exact .inl ⟨_, rest, hsplit.symm, hfree, rfl⟩

/-- **What is cut off is a lexeme**, or an open string, or a character that is no blank, quote, digit, letter or
mark. -/
theorem cut_cases (c : Char) (cs : List Char) :
    (∃ kind, (cut c cs).piece = .ofKind kind ∧ Lexeme (cut c cs).chars kind) ∨
    (c = '"' ∧ '"' ∉ cs ∧ cut c cs = ⟨.unclosed, c :: cs, []⟩) ∨
    (c ≠ '"' ∧ cut c cs = ⟨.stray c, [c], cs⟩) := by
  unfold cut
  split
  · next hc => exact .inl ⟨none, rfl, .blank ((isBlank_iff c).1 hc)⟩
  split
  · next hc => exact .inl (lexeme_cutNumber hc)
  split
  · next hc => exact .inl (lexeme_cutWord hc)
  split
  · next hc =>
    subst hc
    rcases cutString_cases cs with ⟨content, rest, -, hfree, hcut⟩ | ⟨hfree, hcut⟩ <;> rw [hcut]
    · exact .inl ⟨some _, rfl, .string hfree⟩
    · exact .inr (.inl ⟨rfl, hfree, rfl⟩)
  next hquote =>
  split
  · next hc =>
    subst hc
    split
    · exact .inl ⟨none, rfl, .comment fun h => by simpa using List.mem_takeWhile_imp h⟩
    · have hm : (String.ofList ['/'], Kind.slash) ∈ marks := by decide
      exact .inl ⟨some .slash, rfl, lexeme_mark hm⟩
  split
  · next hk => exact .inl ⟨some _, rfl, lexeme_mark (mem_marks_of_ofMark? hk)⟩
  · next hk =>
    obtain ⟨ha, hb⟩ := mem_marks_of_ofComparison? hk
    unfold cutComparison
    split
    · exact .inl ⟨some _, rfl, lexeme_mark hb⟩
    · exact .inl ⟨some _, rfl, lexeme_mark ha⟩
  · exact .inr (.inr ⟨hquote, rfl⟩)

/-! ## What is in the grammar is cut off -/

/-- The piece goes at least as far as the lexeme, and is it if it goes no further. -/
def Cut.Extends (p : Cut) (cs : List Char) (kind : Option Kind) : Prop :=
  cs <+: p.chars ∧ (cs = p.chars → p.piece = .ofKind kind)

theorem extends_cutNumber_whole {ds : List Char} (hd : ∀ d ∈ ds, isDigit d = true) (rest : List Char) :
    (cutNumber (ds ++ rest)).Extends ds (some (.number (.ofDigits ds []))) := by
  have hw : (ds ++ rest).takeWhile isDigit = ds ++ rest.takeWhile isDigit := List.takeWhile_append_of_pos hd
  have short (more : List Char) : Cut.Extends ⟨.token (.number (.ofDigits (ds ++ rest.takeWhile isDigit) [])),
      ds ++ rest.takeWhile isDigit, more⟩ ds (some (.number (.ofDigits ds []))) := by
    refine ⟨List.prefix_append _ _, fun h => ?_⟩
    change Piece.token (.number (.ofDigits (ds ++ rest.takeWhile isDigit) [])) = _
    rw [← show ds = ds ++ rest.takeWhile isDigit from h]
    rfl
  unfold cutNumber
  rw [hw]
  split
  · split
    -- The point and what follows it make the piece longer than the lexeme.
    · refine ⟨⟨_, (List.append_assoc _ _ _).symm⟩, fun h => ?_⟩
      have := congrArg List.length h
      simp at this
    · exact short _
  · exact short _

theorem extends_cutNumber_fraction {ds es : List Char} (hd : ∀ d ∈ ds, isDigit d = true) (hne : es ≠ [])
    (he : ∀ e ∈ es, isDigit e = true) (rest : List Char) :
    (cutNumber (ds ++ '.' :: es ++ rest)).Extends (ds ++ '.' :: es) (some (.number (.ofDigits ds es))) := by
  obtain ⟨e, es, rfl⟩ := List.exists_cons_of_ne_nil hne
  have hdot : ∀ cs, ('.' :: cs).takeWhile isDigit = [] ∧ ('.' :: cs).dropWhile isDigit = '.' :: cs :=
    fun _ => ⟨rfl, rfl⟩
  have hw : (ds ++ '.' :: (e :: es) ++ rest).takeWhile isDigit = ds := by
    rw [List.append_assoc, List.takeWhile_append_of_pos hd, List.cons_append, (hdot _).1, List.append_nil]
  have hr : (ds ++ '.' :: (e :: es) ++ rest).dropWhile isDigit = '.' :: e :: (es ++ rest) := by
    rw [List.append_assoc, List.dropWhile_append_of_pos hd]
    exact (hdot _).2
  have hf : (e :: (es ++ rest)).takeWhile isDigit = e :: es ++ rest.takeWhile isDigit :=
    @List.takeWhile_append_of_pos _ _ (e :: es) rest he
  have hde : isDigit e = true := he e List.mem_cons_self
  have hcut : cutNumber (ds ++ '.' :: (e :: es) ++ rest) =
      ⟨.token (.number (.ofDigits ds (e :: es ++ rest.takeWhile isDigit))),
        ds ++ '.' :: (e :: es ++ rest.takeWhile isDigit), (e :: (es ++ rest)).dropWhile isDigit⟩ := by
    unfold cutNumber
    rw [hw, hr]
    simp only [hde, if_true, hf]
  rw [hcut]
  refine ⟨⟨rest.takeWhile isDigit, by simp⟩, fun h => ?_⟩
  have h : ds ++ '.' :: (e :: es) = ds ++ '.' :: (e :: es ++ rest.takeWhile isDigit) := h
  rw [List.append_cancel_left_eq, List.cons.injEq] at h
  rw [← h.2]
  rfl

theorem extends_cutWord {c : Char} {cs : List Char} (h : ∀ d ∈ c :: cs, isWordPart d = true) (rest : List Char) :
    (cutWord (c :: cs ++ rest)).Extends (c :: cs) (some (.ofWord (String.ofList (c :: cs)))) := by
  have hw : (c :: cs ++ rest).takeWhile isWordPart = c :: cs ++ rest.takeWhile isWordPart :=
    List.takeWhile_append_of_pos h
  unfold cutWord
  rw [hw]
  refine ⟨List.prefix_append _ _, fun heq => ?_⟩
  change Piece.token (.ofWord (String.ofList (c :: cs ++ rest.takeWhile isWordPart))) = _
  rw [← show c :: cs = c :: cs ++ rest.takeWhile isWordPart from heq]
  rfl

theorem not_isBlank {p : Char → Bool} (hp : [' ', '\r', '\t', '\n'].any p = false) {c : Char} (h : p c = true) :
    ¬ isBlank c = true := fun hb => Bool.eq_false_iff.1 (eq_false_of_isBlank hp hb) h

theorem cut_of_isDigit {c : Char} (h : isDigit c = true) (cs : List Char) : cut c cs = cutNumber (c :: cs) := by
  unfold cut
  rw [if_neg (not_isBlank rfl h), if_pos h]

theorem cut_of_isWordStart {c : Char} (h : isWordStart c = true) (cs : List Char) : cut c cs = cutWord (c :: cs) := by
  have hb := not_isBlank rfl h
  have hd : ¬ isDigit c = true := by
    intro hd
    simp only [isWordStart, isDigit, Bool.or_eq_true, Bool.and_eq_true, decide_eq_true_eq, Char.le_def] at h hd
    rcases h with (h | h) | rfl
    · exact absurd (UInt32.le_trans h.1 hd.2) (by decide)
    · exact absurd (UInt32.le_trans h.1 hd.2) (by decide)
    · exact absurd hd.2 (by decide)
  unfold cut
  rw [if_neg hb, if_neg hd, if_pos h]

theorem extends_mark {mark : String} {kind : Kind} (h : (mark, kind) ∈ marks) (rest : List Char) :
    ∃ c cs, mark.toList ++ rest = c :: cs ∧ (cut c cs).Extends mark.toList (some kind) := by
  have single : ∀ c k, (∀ cs, cut c cs = ⟨.token k, [c], cs⟩) → ∃ d ds, [c] ++ rest = d :: ds ∧
      (cut d ds).Extends [c] (some k) := fun c k hcut =>
    ⟨c, rest, rfl, by rw [hcut]; exact ⟨List.prefix_rfl, fun _ => rfl⟩⟩
  have pair : ∀ c k, (∀ cs, cut c ('=' :: cs) = ⟨.token k, [c, '='], cs⟩) → ∃ d ds, [c, '='] ++ rest = d :: ds ∧
      (cut d ds).Extends [c, '='] (some k) := fun c k hcut =>
    ⟨c, '=' :: rest, rfl, by rw [hcut]; exact ⟨List.prefix_rfl, fun _ => rfl⟩⟩
  have alone : ∀ c k both, (∀ cs, cut c cs = cutComparison c k both cs) → ∃ d ds, [c] ++ rest = d :: ds ∧
      (cut d ds).Extends [c] (some k) := fun c k both hcut => by
    refine ⟨c, rest, rfl, ?_⟩
    rw [hcut]
    unfold cutComparison
    split
    · exact ⟨⟨['='], rfl⟩, fun h => by cases h⟩
    · exact ⟨List.prefix_rfl, fun _ => rfl⟩
  simp only [marks, List.mem_cons, List.not_mem_nil, or_false, Prod.mk.injEq] at h
  rcases h with ⟨rfl, rfl⟩ | ⟨rfl, rfl⟩ | ⟨rfl, rfl⟩ | ⟨rfl, rfl⟩ | ⟨rfl, rfl⟩ | ⟨rfl, rfl⟩ | ⟨rfl, rfl⟩ | ⟨rfl, rfl⟩ |
    ⟨rfl, rfl⟩ | ⟨rfl, rfl⟩ | ⟨rfl, rfl⟩ | ⟨rfl, rfl⟩ | ⟨rfl, rfl⟩ | ⟨rfl, rfl⟩ | ⟨rfl, rfl⟩ | ⟨rfl, rfl⟩ | ⟨rfl, rfl⟩ |
    ⟨rfl, rfl⟩ | ⟨rfl, rfl⟩
  iterate 10 exact single _ _ fun _ => rfl
  · refine ⟨'/', rest, rfl, ?_⟩
    rcases rest with _ | ⟨d, rest⟩
    · exact ⟨List.prefix_rfl, fun _ => rfl⟩
    · by_cases hd : d = '/'
      · subst hd
        exact ⟨⟨'/' :: _, rfl⟩, fun h => by cases h⟩
      · have hcut : cut '/' (d :: rest) = ⟨.token .slash, ['/'], d :: rest⟩ := by
          simp [cut, isBlank, isDigit, isWordStart, hd]
        rw [hcut]
        exact ⟨List.prefix_rfl, fun _ => rfl⟩
  iterate 4
    · exact alone _ _ _ fun _ => rfl
    · exact pair _ _ fun _ => rfl

/-- **A text that begins with a lexeme is cut there or behind it.** -/
theorem cut_covers {cs : List Char} {kind : Option Kind} (h : Lexeme cs kind) (rest : List Char) :
    ∃ d ds, cs ++ rest = d :: ds ∧ (cut d ds).Extends cs kind := by
  cases h with
  | @blank c h =>
    have hcut : cut c rest = ⟨.gap, [c], rest⟩ := by
      unfold cut
      rw [if_pos ((isBlank_iff c).2 h)]
    exact ⟨c, rest, rfl, by rw [hcut]; exact ⟨List.prefix_rfl, fun _ => rfl⟩⟩
  | @comment cs h =>
    refine ⟨'/', '/' :: cs ++ rest, rfl, ?_⟩
    have hw : (cs ++ rest).takeWhile (fun c => decide (c ≠ '\n')) = cs ++ rest.takeWhile (fun c => decide (c ≠ '\n')) :=
      List.takeWhile_append_of_pos fun c hc => decide_eq_true fun he => h (he ▸ hc)
    change (cutComment (cs ++ rest)).Extends _ _
    unfold cutComment
    rw [hw]
    exact ⟨⟨_, rfl⟩, fun _ => rfl⟩
  | @string cs h =>
    refine ⟨'"', cs ++ '"' :: rest, by simp, ?_⟩
    have hcut : cutString (cs ++ '"' :: rest) = ⟨.token (.string (String.ofList cs)), '"' :: cs ++ ['"'], rest⟩ := by
      have hfree : ∀ c ∈ cs, decide (c ≠ '"') = true := fun c hc => decide_eq_true fun he => h (he ▸ hc)
      unfold cutString
      rw [List.takeWhile_append_of_pos hfree, List.dropWhile_append_of_pos hfree]
      simp
    change (cutString (cs ++ '"' :: rest)).Extends _ _
    rw [hcut]
    exact ⟨List.prefix_rfl, fun _ => rfl⟩
  | whole h hd =>
    obtain ⟨d, ds, rfl⟩ := List.exists_cons_of_ne_nil h
    refine ⟨d, ds ++ rest, rfl, ?_⟩
    rw [cut_of_isDigit (hd d List.mem_cons_self)]
    exact extends_cutNumber_whole hd rest
  | fraction h hd h' he =>
    obtain ⟨d, ds, rfl⟩ := List.exists_cons_of_ne_nil h
    refine ⟨d, ds ++ '.' :: _ ++ rest, rfl, ?_⟩
    rw [cut_of_isDigit (hd d List.mem_cons_self)]
    exact extends_cutNumber_fraction hd h' he rest
  | @reserved word kind h =>
    obtain ⟨c, cs, hcs, hc, hp⟩ := isWordPart_of_word h
    have hk : Kind.ofWord (String.ofList (c :: cs)) = kind := by
      rw [← hcs, String.ofList_toList]
      exact ofWord_of_mem h
    rw [hcs] at hp ⊢
    refine ⟨c, cs ++ rest, rfl, ?_⟩
    rw [cut_of_isWordStart hc, ← hk]
    exact extends_cutWord hp rest
  | @identifier c cs hc hcs h =>
    have hc := (isWordStart_iff c).2 hc
    have hp : ∀ d ∈ c :: cs, isWordPart d = true := fun d hd => by
      rcases List.mem_cons.1 hd with rfl | hd
      · simp [isWordPart, hc]
      · exact (isWordPart_iff d).2 (hcs d hd)
    refine ⟨c, cs ++ rest, rfl, ?_⟩
    rw [cut_of_isWordStart hc, ← ofWord_of_not_mem h]
    exact extends_cutWord hp rest
  | mark h => exact extends_mark h rest

/-- A lexeme that a text begins with goes no further than what is cut off. -/
theorem extends_of_start {c : Char} {cs ds : List Char} {kind : Option Kind} (h : Lexeme ds kind)
    (hp : ds <+: c :: cs) :
    (cut c cs).Extends ds kind := by
  obtain ⟨rest, hr⟩ := hp
  obtain ⟨d, ds', hd, hc⟩ := cut_covers h rest
  rw [hr] at hd
  cases hd
  exact hc

/-! ## Maximal munch -/

theorem chars_at_start (c : Char) (cs : List Char) : (cut c cs).chars <+: c :: cs := ⟨_, cut_chars_append_rest c cs⟩

/-- A lexeme is cut off whole where nothing follows it. -/
theorem Lexeme.cut_eq {c : Char} {cs : List Char} {kind : Option Kind} (h : Lexeme (c :: cs) kind) :
    (cut c cs).chars = c :: cs ∧ (cut c cs).piece = .ofKind kind := by
  obtain ⟨hpre, hpiece⟩ := extends_of_start h List.prefix_rfl
  have heq := hpre.eq_of_length_le (chars_at_start c cs).length_le
  exact ⟨heq.symm, hpiece heq⟩

theorem Lexeme.ne_nil {cs : List Char} {kind : Option Kind} (h : Lexeme cs kind) : cs ≠ [] := by
  rintro rfl
  obtain ⟨d, ds, hd, -⟩ := cut_covers h []
  cases hd

/-- No lexeme begins with a quote and has no other one. -/
theorem Lexeme.quote_mem {cs : List Char} {kind : Option Kind} (h : Lexeme ('"' :: cs) kind) : '"' ∈ cs := by
  rcases cutString_cases cs with ⟨content, rest, rfl, -⟩ | ⟨-, hcut⟩
  · simp
  · have hpiece := h.cut_eq.2
    rw [show cut '"' cs = cutString cs from rfl, hcut] at hpiece
    cases kind <;> cases hpiece

theorem Lexeme.not_start_of_stray {c : Char} {cs ds : List Char} {kind : Option Kind} (h : Lexeme ds kind)
    (hcut : cut c cs = ⟨.stray c, [c], cs⟩) : ¬ ds <+: c :: cs := by
  intro hp
  obtain ⟨hpre, hpiece⟩ := extends_of_start h hp
  rw [hcut] at hpre hpiece
  have hlen : [c].length ≤ ds.length := List.length_pos_iff.2 h.ne_nil
  cases kind <;> cases hpiece (hpre.eq_of_length_le hlen)

/-- **The first piece of a text is what is cut off it**, and nothing else is. -/
theorem firstPiece_iff {c : Char} {cs : List Char} {piece : Piece} {chars : List Char} :
    FirstPiece (c :: cs) piece chars ↔ piece = (cut c cs).piece ∧ chars = (cut c cs).chars := by
  constructor
  · intro h
    cases h with
    | lexeme h hp hmax =>
      obtain ⟨hpre, hpiece⟩ := extends_of_start h hp
      rcases cut_cases c cs with ⟨kind, -, hlex⟩ | ⟨rfl, hfree, -⟩ | ⟨-, hcut⟩
      · have heq := hpre.eq_of_length_le (hmax _ _ hlex (chars_at_start c cs))
        exact ⟨(hpiece heq).symm, heq⟩
      · obtain ⟨d, ds, rfl⟩ := List.exists_cons_of_ne_nil h.ne_nil
        obtain ⟨rfl, hds⟩ := List.cons_prefix_cons.1 hp
        exact absurd (hds.subset h.quote_mem) hfree
      · exact absurd hp (h.not_start_of_stray hcut)
    | unclosed ht hfree =>
      cases ht
      rcases cutString_cases cs with ⟨content, rest, rfl, -⟩ | ⟨-, hcut⟩
      · exact absurd (List.mem_append_right _ List.mem_cons_self) hfree
      · rw [show cut '"' cs = cutString cs from rfl, hcut]
        exact ⟨rfl, rfl⟩
    | stray ht hc hno =>
      cases ht
      rcases cut_cases c cs with ⟨kind, -, hlex⟩ | ⟨rfl, -⟩ | ⟨-, hcut⟩
      · exact absurd (chars_at_start c cs) (hno _ _ hlex)
      · exact absurd rfl hc
      · rw [hcut]
        exact ⟨rfl, rfl⟩
  · rintro ⟨rfl, rfl⟩
    rcases cut_cases c cs with ⟨kind, hpiece, hlex⟩ | ⟨rfl, hfree, hcut⟩ | ⟨hc, hcut⟩
    · rw [hpiece]
      exact .lexeme hlex (chars_at_start c cs) fun ds other h hp => (extends_of_start h hp).1.length_le
    · rw [hcut]
      exact .unclosed rfl hfree
    · rw [hcut]
      exact .stray rfl hc fun ds kind h => h.not_start_of_stray hcut

/-- **The pieces of a text, as the grammar has them**: one behind the other, without a gap or an overlap, each the first
piece of the text that is left. -/
inductive Segmented : List Char → List Cut → Prop
  | nil : Segmented [] []
  | cons {p : Cut} {ps : List Cut} (h : FirstPiece (p.chars ++ p.rest) p.piece p.chars) (ht : Segmented p.rest ps) :
      Segmented (p.chars ++ p.rest) (p :: ps)

theorem not_firstPiece_nil {piece : Piece} {chars : List Char} : ¬ FirstPiece [] piece chars := by
  intro h
  cases h with
  | lexeme h hp => exact h.ne_nil (List.prefix_nil.1 hp)
  | unclosed ht => cases ht
  | stray ht => cases ht

theorem segmented_pieces : ∀ (n : Nat) {cs : List Char}, cs.length ≤ n → Segmented cs (pieces cs)
  | _, [], _ => .nil
  | n + 1, c :: cs, hn => by
    have hr := length_rest_le c cs
    rw [List.length_cons] at hn
    have hcut := cut_chars_append_rest c cs
    have hfirst : FirstPiece ((cut c cs).chars ++ (cut c cs).rest) (cut c cs).piece (cut c cs).chars := by
      rw [hcut]
      exact firstPiece_iff.2 ⟨rfl, rfl⟩
    have hseg := Segmented.cons hfirst (segmented_pieces n (by omega))
    rw [pieces_cons]
    rwa [hcut] at hseg

/-- **A text has one segmentation.** -/
theorem segmented_iff {cs : List Char} {ps : List Cut} : Segmented cs ps ↔ ps = pieces cs := by
  constructor
  · intro h
    induction h with
    | nil => rfl
    | @cons p ps h _ ih =>
      rcases hc : p.chars ++ p.rest with _ | ⟨c, cs⟩
      · rw [hc] at h
        exact absurd h not_firstPiece_nil
      · rw [hc] at h
        obtain ⟨hpiece, hchars⟩ := firstPiece_iff.1 h
        have hrest : p.rest = (cut c cs).rest := by
          rw [hchars, ← cut_chars_append_rest c cs] at hc
          exact List.append_cancel_left hc
        have hp : p = cut c cs := by
          cases p
          cases hcut : cut c cs
          simp_all
        rw [pieces_cons, ih, hp]
  · rintro rfl
    exact segmented_pieces _ (Nat.le_refl _)

/-! ## Items -/

/-- **The items of pieces that begin on `line`**: nothing for a gap, a token or a fault for every other piece, on the
line where the piece ends, and behind them the end. -/
inductive Items : Nat → List Cut → List (Except Fault Token) → Prop
  | nil {line : Nat} : Items line [] [.ok (.atEnd line)]
  | gap {line : Nat} {p : Cut} {ps : List Cut} {items : List (Except Fault Token)} (h : p.piece = .gap)
      (ht : Items (line + newlines p.chars) ps items) : Items line (p :: ps) items
  | token {line : Nat} {p : Cut} {ps : List Cut} {items : List (Except Fault Token)} {kind : Kind}
      (h : p.piece = .token kind) (ht : Items (line + newlines p.chars) ps items) :
      Items line (p :: ps) (.ok ⟨kind, String.ofList p.chars, line + newlines p.chars⟩ :: items)
  | unclosed {line : Nat} {p : Cut} {ps : List Cut} {items : List (Except Fault Token)} (h : p.piece = .unclosed)
      (ht : Items (line + newlines p.chars) ps items) :
      Items line (p :: ps) (.error (.lex (line + newlines p.chars) .unterminatedString) :: items)
  | stray {line : Nat} {p : Cut} {ps : List Cut} {items : List (Except Fault Token)} {c : Char} (h : p.piece = .stray c)
      (ht : Items (line + newlines p.chars) ps items) :
      Items line (p :: ps) (.error (.lex (line + newlines p.chars) (.unexpectedCharacter c)) :: items)

theorem items_itemsFrom : ∀ (line : Nat) {ps : List Cut}, (∀ p ∈ ps, p.lines = newlines p.chars) →
    Items line ps (itemsFrom line ps)
  | _, [], _ => .nil
  | line, p :: ps, h => by
    obtain ⟨hp, hps⟩ := List.forall_mem_cons.1 h
    have ih := items_itemsFrom (line + newlines p.chars) hps
    rw [itemsFrom, hp, Cut.item?]
    split
    · next h => exact .gap h ih
    · next h => exact .token h ih
    · next h => exact .unclosed h ih
    · next h => exact .stray h ih

theorem count_atEnd (source : String) : (tokensOf (scan source)).countP (fun t => decide (t.kind = .eof)) = 1 := by
  have hzero : (tokensOf (sourceItems source)).countP (fun t => decide (t.kind = .eof)) = 0 :=
    List.countP_eq_zero.2 fun t ht => by simpa using kind_ne_eof ht
  rw [tokensOf_scan, List.countP_append, hzero]
  rfl

/-! ## One item after the other -/

namespace Reader

/-- The items a reader still gives. -/
def items (r : Reader) : List (Except Fault Token) := if r.ended then [] else itemsFrom r.line (pieces r.rest)

/-- The reader so many items further on. -/
def after (r : Reader) : Nat → Reader
  | 0 => r
  | k + 1 => (r.after k).next.2

theorem advance_items : ∀ (n : Nat) {cs : List Char} (line : Nat), cs.length ≤ n →
    itemsFrom line (pieces cs) = (advance n cs line).1 :: (advance n cs line).2.items
  | 0, [], _, _ => rfl
  | _ + 1, [], _, _ => rfl
  | n + 1, c :: cs, line, hn => by
    have hr := length_rest_le c cs
    rw [List.length_cons] at hn
    rw [pieces_cons, itemsFrom, advance]
    cases (cut c cs).item? (line + (cut c cs).lines) with
    | none => exact advance_items n _ (by omega)
    | some item => rfl

/-- **The next item is the first one left**, and the others are left behind it. -/
theorem next_items (r : Reader) : r.next.1 = r.items.head? ∧ r.next.2.items = r.items.tail := by
  unfold next
  by_cases h : r.ended = true
  · simp [items, h]
  · have hr : r.items = itemsFrom r.line (pieces r.rest) := if_neg h
    rw [if_neg h, hr, advance_items _ _ (Nat.le_refl _)]
    exact ⟨rfl, rfl⟩

theorem after_items (r : Reader) : ∀ k, (r.after k).items = r.items.drop k
  | 0 => rfl
  | k + 1 => by rw [after, (next_items _).2, after_items r k, List.tail_drop]

theorem after_next (r : Reader) (k : Nat) : (r.after k).next.1 = r.items[k]? := by
  rw [(next_items _).1, after_items, List.head?_drop]

end Reader

/-- **Reading a text is cutting it at the longest lexeme, again and again.**  A text has one segmentation in the sense
of the grammar; its segments make up the text; the items of the text are theirs, in order, with the one end behind
them; and a reader gives these items in turn, and nothing behind them. -/
theorem scan_maximal_munch (source : String) :
    ∃ segments : List Cut, (∀ ps, Segmented source.toList ps ↔ ps = segments) ∧
      String.join (segments.map fun p => String.ofList p.chars) = source ∧
      Items 1 segments (scan source) ∧
      (tokensOf (scan source)).countP (fun t => decide (t.kind = .eof)) = 1 ∧
      ∀ k, ((Reader.start source).after k).next.1 = (scan source)[k]? := by
  refine ⟨pieces source.toList, fun ps => segmented_iff, ?_, items_itemsFrom 1 fun p => lines_of_mem,
    count_atEnd source, fun k => ?_⟩
  · rw [← String.toList_inj, String.toList_join, List.flatMap_map]
    simp only [String.toList_ofList]
    exact flatMap_pieces _ (Nat.le_refl _)
  · exact Reader.after_next _ k

end Scriptlet
