import Mathlib
import Scriptlet.Token.Scan

/-!
# Texts joined at a newline

A blank ends every token, and a newline every piece of a text but a string that is not closed (`cut_append_blank`).  So
the pieces of two texts with a newline between them are those of the first, the newline, and those of the second
(`pieces_append_newline`), and the items of the second stand so many lines further down as the first has
(`sourceItems_append_newline`).
-/
namespace Scriptlet

/-! ## One piece -/

section

variable {p : Char → Bool} (ds : List Char)

theorem takeWhile_append_stop {d : Char} (hd : p d = false) : ∀ cs : List Char,
    (cs ++ d :: ds).takeWhile p = cs.takeWhile p ∧ (cs ++ d :: ds).dropWhile p = cs.dropWhile p ++ d :: ds
  | [] => by simp [hd]
  | c :: cs => by
    obtain ⟨ht, hw⟩ := takeWhile_append_stop hd cs
    cases hc : p c <;> simp [hc, ht, hw]

theorem takeWhile_append_of_stopped {d : Char} {rest : List Char} : ∀ {cs : List Char}, cs.dropWhile p = d :: rest →
    (cs ++ ds).takeWhile p = cs.takeWhile p ∧ (cs ++ ds).dropWhile p = d :: (rest ++ ds)
  | [], h => by cases h
  | c :: cs, h => by
    cases hc : p c with
    | true =>
      rw [List.dropWhile_cons_of_pos hc] at h
      obtain ⟨ht, hw⟩ := takeWhile_append_of_stopped h
      simp [hc, ht, hw]
    | false =>
      rw [List.dropWhile_cons_of_neg (by simp [hc])] at h
      cases h
      simp [hc]

end

/-- The piece with more text behind it. -/
def Cut.followedBy (p : Cut) (more : List Char) : Cut := { p with rest := p.rest ++ more }

theorem isBlank_iff (c : Char) : isBlank c = true ↔ c ∈ [' ', '\r', '\t', '\n'] := by
  simp [isBlank, or_assoc]

theorem eq_false_of_isBlank {p : Char → Bool} (hp : [' ', '\r', '\t', '\n'].any p = false) {c : Char}
    (h : isBlank c = true) : p c = false :=
  Bool.eq_false_iff.2 (List.any_eq_false.1 hp c ((isBlank_iff c).1 h))

section

variable {b : Char} (hb : isBlank b = true)
include hb

theorem cutNumber_append (cs ds : List Char) : cutNumber (cs ++ b :: ds) = (cutNumber cs).followedBy (b :: ds) := by
  have hdigit : isDigit b = false := eq_false_of_isBlank rfl hb
  have hdot : b ≠ '.' := by
    rintro rfl
    cases hb
  obtain ⟨ht, hw⟩ := takeWhile_append_stop ds hdigit cs
  unfold cutNumber
  rw [ht, hw]
  rcases cs.dropWhile isDigit with _ | ⟨c, _ | ⟨d, rest⟩⟩
  · simp [hdot, Cut.followedBy]
  · by_cases hc : c = '.'
    · subst hc
      simp [hdigit, Cut.followedBy]
    · simp [hc, Cut.followedBy]
  · by_cases hc : c = '.'
    · subst hc
      obtain ⟨ht', hw'⟩ := takeWhile_append_stop ds hdigit (d :: rest)
      rw [List.cons_append] at ht' hw'
      simp only [List.cons_append, ht', hw']
      split <;> rfl
    · simp [hc, Cut.followedBy]

theorem cutComparison_append (c : Char) (alone both : Kind) (cs ds : List Char) :
    cutComparison c alone both (cs ++ b :: ds) = (cutComparison c alone both cs).followedBy (b :: ds) := by
  have hequal : b ≠ '=' := by
    rintro rfl
    cases hb
  rcases cs with _ | ⟨d, cs⟩
  · simp [cutComparison, hequal, Cut.followedBy]
  · by_cases hd : d = '='
    · subst hd
      rfl
    · simp [cutComparison, hd, Cut.followedBy]

end

theorem cutString_append {cs : List Char} (h : (cutString cs).piece ≠ .unclosed) (ds : List Char) :
    cutString (cs ++ ds) = (cutString cs).followedBy ds := by
  unfold cutString at h ⊢
  rcases hd : cs.dropWhile (· ≠ '"') with _ | ⟨d, rest⟩
  · rw [hd] at h
    exact absurd rfl h
  · obtain ⟨ht, hw⟩ := takeWhile_append_of_stopped ds hd
    rw [ht, hw]
    rfl

/-- **A blank ends every piece** but a string that is not closed, and a comment, which only a newline ends. -/
theorem cut_append_blank {b : Char} (hb : isBlank b = true) {c : Char} {cs : List Char}
    (h : (cut c cs).piece ≠ .unclosed) (hgap : (cut c cs).piece = .gap → b = '\n') (ds : List Char) :
    cut c (cs ++ b :: ds) = (cut c cs).followedBy (b :: ds) := by
  unfold cut at h hgap ⊢
  split
  · rfl
  split
  · exact cutNumber_append hb (c :: cs) ds
  split
  · obtain ⟨ht, hw⟩ := takeWhile_append_stop (p := isWordPart) ds (eq_false_of_isBlank rfl hb) (c :: cs)
    rw [List.cons_append] at ht hw
    simp only [cutWord, ht, hw, Cut.followedBy]
  split
  · simp_all [cutString_append]
  split
  · rcases cs with _ | ⟨d, cs⟩
    · have hslash : b ≠ '/' := by
        rintro rfl
        cases hb
      simp [hslash, Cut.followedBy]
    · by_cases hd : d = '/'
      · subst hd
        have hb : b = '\n' := by simp_all [cutComment]
        obtain ⟨ht, hw⟩ := takeWhile_append_stop (p := (· ≠ '\n')) ds (by simpa using hb) cs
        simp only [List.cons_append, cutComment, ht, hw, Cut.followedBy]
      · simp [hd, Cut.followedBy]
  split
  · rfl
  · exact cutComparison_append hb _ _ _ _ _
  · rfl

/-! ## All pieces -/

theorem cut_chars_ne_nil (c : Char) (cs : List Char) : (cut c cs).chars ≠ [] := by
  unfold cut
  split
  · simp
  split
  · next hc =>
    have hw : (c :: cs).takeWhile isDigit = c :: cs.takeWhile isDigit := List.takeWhile_cons_of_pos hc
    unfold cutNumber
    rw [hw]
    split
    · split <;> simp
    · simp
  split
  · next hc =>
    have hw : isWordPart c = true := by simp [isWordPart, hc]
    simp [cutWord, hw]
  split
  · unfold cutString
    split <;> simp
  split
  · split <;> simp [cutComment]
  split
  · simp
  · unfold cutComparison
    split <;> simp
  · simp

theorem length_rest_le (c : Char) (cs : List Char) : (cut c cs).rest.length ≤ cs.length := by
  have h := congrArg List.length (cut_chars_append_rest c cs)
  have hc := List.length_pos_iff.2 (cut_chars_ne_nil c cs)
  rw [List.length_append, List.length_cons] at h
  omega

theorem cuts_eq_cuts : ∀ {n m : Nat} {cs : List Char}, cs.length ≤ n → cs.length ≤ m → cuts n cs = cuts m cs
  | 0, 0, _, _, _ => rfl
  | 0, _ + 1, [], _, _ => rfl
  | _ + 1, 0, [], _, _ => rfl
  | _ + 1, _ + 1, [], _, _ => rfl
  | n + 1, m + 1, c :: cs, hn, hm => by
    have hr := length_rest_le c cs
    rw [List.length_cons] at hn hm
    rw [cuts, cuts, cuts_eq_cuts (n := n) (m := m) (by omega) (by omega)]

/-- The pieces of a text. -/
def pieces (cs : List Char) : List Cut := cuts cs.length cs

theorem pieces_cons (c : Char) (cs : List Char) : pieces (c :: cs) = cut c cs :: pieces (cut c cs).rest := by
  rw [pieces, List.length_cons, cuts, cuts_eq_cuts (length_rest_le c cs) (Nat.le_refl _)]
  rfl

/-- The newline between two texts. -/
def newlineCut (ds : List Char) : Cut := ⟨.gap, ['\n'], ds⟩

/-- **The pieces of two texts with a newline between them.** -/
theorem pieces_append_newline (ds : List Char) : ∀ (n : Nat) {cs : List Char}, cs.length ≤ n →
    (∀ p ∈ pieces cs, p.piece ≠ .unclosed) →
      pieces (cs ++ '\n' :: ds) = (pieces cs).map (·.followedBy ('\n' :: ds)) ++ newlineCut ds :: pieces ds
  | _, [], _, _ => by
    rw [List.nil_append, pieces_cons]
    rfl
  | n + 1, c :: cs, hn, h => by
    have hr := length_rest_le c cs
    rw [List.length_cons] at hn
    rw [pieces_cons] at h
    have hlen : (cut c cs).rest.length ≤ n := by omega
    have ih := pieces_append_newline ds n hlen fun p hp => h p (List.mem_cons_of_mem _ hp)
    rw [List.cons_append, pieces_cons, cut_append_blank rfl (h _ List.mem_cons_self) fun _ => rfl, pieces_cons c cs,
      List.map_cons, List.cons_append, ← ih]
    rfl

/-- The pieces make up the text. -/
theorem flatMap_pieces : ∀ (n : Nat) {cs : List Char}, cs.length ≤ n → (pieces cs).flatMap Cut.chars = cs
  | _, [], _ => rfl
  | n + 1, c :: cs, hn => by
    have hr := length_rest_le c cs
    rw [List.length_cons] at hn
    rw [pieces_cons, List.flatMap_cons, flatMap_pieces n (by omega), cut_chars_append_rest]

/-- **Every piece of a text is cut off** what is left of the text behind some others. -/
theorem exists_cut_of_mem : ∀ (n : Nat) {cs : List Char}, cs.length ≤ n → ∀ p ∈ pieces cs,
    ∃ before c ds, cs = before ++ c :: ds ∧ p = cut c ds
  | _, [], _, p, hp => by cases hp
  | n + 1, c :: cs, hn, p, hp => by
    have hr := length_rest_le c cs
    rw [List.length_cons] at hn
    rw [pieces_cons] at hp
    rcases List.mem_cons.1 hp with rfl | hp
    · exact ⟨[], c, cs, rfl, rfl⟩
    · obtain ⟨before, d, ds, hd, rfl⟩ := exists_cut_of_mem n (by omega) p hp
      exact ⟨(cut c cs).chars ++ before, d, ds, by rw [List.append_assoc, ← hd, cut_chars_append_rest], rfl⟩

/-! ## Lines -/

theorem newlines_append (cs ds : List Char) : newlines (cs ++ ds) = newlines cs + newlines ds := List.count_append

theorem newlines_eq_zero {cs : List Char} (h : ∀ c ∈ cs, c ≠ '\n') : newlines cs = 0 :=
  List.count_eq_zero.2 fun hn => h _ hn rfl

theorem newlines_takeWhile {p : Char → Bool} (hp : p '\n' = false) (cs : List Char) : newlines (cs.takeWhile p) = 0 :=
  newlines_eq_zero fun c hc => by
    rintro rfl
    cases (List.mem_takeWhile_imp hc).symm.trans hp

theorem newlines_cutNumber (cs : List Char) : newlines (cutNumber cs).chars = 0 := by
  have hdigits := newlines_takeWhile (p := isDigit) rfl
  unfold cutNumber
  split
  · next d ds _ =>
    split
    · change newlines (cs.takeWhile isDigit ++ (['.'] ++ (d :: ds).takeWhile isDigit)) = 0
      rw [newlines_append, newlines_append, hdigits, hdigits]
      rfl
    · exact hdigits cs
  · exact hdigits cs

theorem newlines_cutComment (cs : List Char) : newlines (cutComment cs).chars = 0 := by
  change newlines (['/', '/'] ++ cs.takeWhile (· ≠ '\n')) = 0
  rw [newlines_append, newlines_takeWhile (by decide)]
  rfl

theorem newlines_cutComparison {c : Char} (h : c ≠ '\n') (alone both : Kind) (cs : List Char) :
    newlines (cutComparison c alone both cs).chars = 0 := by
  unfold cutComparison
  split
  · exact newlines_eq_zero (by simp [h])
  · exact newlines_eq_zero (by simp [h])

theorem Cut.lines_of_newlines {p : Cut} (h : newlines p.chars = 0) : p.lines = newlines p.chars := by
  rw [Cut.lines, h]
  split
  · refine if_neg fun hp => ?_
    rw [hp] at h
    cases h
  all_goals rfl

/-- **Lines are counted where newlines are**: a piece that is neither a newline nor a string has none in it. -/
theorem lines_cut (c : Char) (cs : List Char) : (cut c cs).lines = newlines (cut c cs).chars := by
  by_cases hc : c = '\n'
  · rw [hc]
    rfl
  have hone : newlines [c] = 0 := newlines_eq_zero (by simpa using hc)
  unfold cut
  split
  · exact Cut.lines_of_newlines hone
  split
  · exact Cut.lines_of_newlines (newlines_cutNumber _)
  split
  · exact Cut.lines_of_newlines (newlines_takeWhile (by decide) _)
  split
  · unfold cutString
    split <;> rfl
  split
  · split
    · exact Cut.lines_of_newlines (newlines_cutComment _)
    · exact Cut.lines_of_newlines hone
  split
  · exact Cut.lines_of_newlines hone
  · exact Cut.lines_of_newlines (newlines_cutComparison hc _ _ _)
  · exact Cut.lines_of_newlines hone

theorem lines_of_mem {cs : List Char} {p : Cut} (h : p ∈ pieces cs) : p.lines = newlines p.chars := by
  obtain ⟨-, c, ds, -, rfl⟩ := exists_cut_of_mem _ (Nat.le_refl _) p h
  exact lines_cut c ds

/-! ## Items -/

/-- The token so many lines further down. -/
def Token.down (k : Nat) (t : Token) : Token := { t with line := t.line + k }

/-- The lexical fault so many lines further down. -/
def Fault.down (k : Nat) : Fault → Fault
  | .lex line cause => .lex (line + k) cause
  | f => f

/-- The item so many lines further down. -/
def itemDown (k : Nat) : Except Fault Token → Except Fault Token
  | .ok t => .ok (t.down k)
  | .error f => .error (f.down k)

/-- The items of pieces that begin on `line`, without the end. -/
def itemsOf (line : Nat) : List Cut → List (Except Fault Token)
  | [] => []
  | p :: ps => (p.item? (line + newlines p.chars)).toList ++ itemsOf (line + newlines p.chars) ps

theorem itemsFrom_eq : ∀ (line : Nat) {ps : List Cut}, (∀ p ∈ ps, p.lines = newlines p.chars) →
    itemsFrom line ps = itemsOf line ps ++ [.ok (.atEnd (line + newlines (ps.flatMap Cut.chars)))]
  | _, [], _ => rfl
  | line, p :: ps, h => by
    obtain ⟨hp, hps⟩ := List.forall_mem_cons.1 h
    simp only [itemsFrom, itemsOf, hp, itemsFrom_eq _ hps, List.flatMap_cons, newlines_append, List.append_assoc,
      Nat.add_assoc]

theorem itemsOf_append (qs : List Cut) : ∀ (line : Nat) (ps : List Cut),
    itemsOf line (ps ++ qs) = itemsOf line ps ++ itemsOf (line + newlines (ps.flatMap Cut.chars)) qs
  | _, [] => rfl
  | line, p :: ps => by
    simp only [List.cons_append, itemsOf, itemsOf_append qs, List.flatMap_cons, newlines_append, List.append_assoc,
      Nat.add_assoc]

theorem itemsOf_followedBy (more : List Char) : ∀ (line : Nat) (ps : List Cut),
    itemsOf line (ps.map (·.followedBy more)) = itemsOf line ps
  | _, [] => rfl
  | line, p :: ps => by
    rw [List.map_cons, itemsOf, itemsOf, ← itemsOf_followedBy more _ ps]
    rfl

theorem item?_down (p : Cut) (line k : Nat) : p.item? (line + k) = (p.item? line).map (itemDown k) := by
  unfold Cut.item?
  split <;> rfl

theorem itemsOf_down (k : Nat) : ∀ (line : Nat) (ps : List Cut),
    itemsOf (line + k) ps = (itemsOf line ps).map (itemDown k)
  | _, [] => rfl
  | line, p :: ps => by
    rw [itemsOf, itemsOf, Nat.add_right_comm, itemsOf_down k _ ps, item?_down p _ k, List.map_append, Option.toList_map]

/-! ## Texts -/

/-- The items of a text, without the end. -/
def sourceItems (source : String) : List (Except Fault Token) := itemsOf 1 (pieces source.toList)

theorem scan_eq (source : String) :
    scan source = sourceItems source ++ [.ok (.atEnd (1 + newlines source.toList))] := by
  have h : scan source = itemsFrom 1 (pieces source.toList) := rfl
  rw [h, itemsFrom_eq 1 fun p => lines_of_mem, flatMap_pieces _ (Nat.le_refl _)]
  rfl

/-- A text in which every string is closed. -/
def Terminated (source : String) : Prop := ∀ p ∈ pieces source.toList, p.piece ≠ .unclosed

theorem mem_itemsOf (line : Nat) {ps : List Cut} {p : Cut} (h : p ∈ ps) :
    ∃ line', ∀ item, p.item? line' = some item → item ∈ itemsOf line ps := by
  induction ps generalizing line with
  | nil => cases h
  | cons q ps ih =>
    rcases List.mem_cons.1 h with rfl | h
    · exact ⟨_, fun item hi => List.mem_append_left _ (by rw [hi]; exact List.mem_singleton_self _)⟩
    · obtain ⟨line', hl⟩ := ih (line + newlines q.chars) h
      exact ⟨line', fun item hi => List.mem_append_right _ (hl item hi)⟩

theorem terminated_of_not_mem {source : String}
    (h : ∀ line, Fault.lex line .unterminatedString ∉ faultsOf (scan source)) : Terminated source := by
  intro p hp hu
  obtain ⟨line, hl⟩ := mem_itemsOf 1 hp
  have hi := hl (.error (.lex line .unterminatedString)) (by simp [Cut.item?, hu])
  exact h line (List.mem_filterMap.2 ⟨_, by rw [scan_eq]; exact List.mem_append_left _ hi, rfl⟩)

theorem terminated_of_faults {source : String} (h : faultsOf (scan source) = []) : Terminated source :=
  terminated_of_not_mem fun line => by
    rw [h]
    exact List.not_mem_nil

/-- How many lines further down a text stands behind another one and a newline. -/
def linesOver (source : String) : Nat := 1 + newlines source.toList

/-- **The items of two texts with a newline between them** are those of the first, and those of the second further
down. -/
theorem sourceItems_append_newline {s : String} (h : Terminated s) (t : String) :
    sourceItems (s ++ "\n" ++ t) = sourceItems s ++ (sourceItems t).map (itemDown (linesOver s)) := by
  have hl : (s ++ "\n" ++ t).toList = s.toList ++ '\n' :: t.toList := by simp
  rw [sourceItems, hl, pieces_append_newline _ _ (Nat.le_refl _) h, itemsOf_append, itemsOf_followedBy,
    List.flatMap_map]
  change itemsOf 1 (pieces s.toList) ++ itemsOf (1 + newlines ((pieces s.toList).flatMap Cut.chars)) _ = _
  rw [flatMap_pieces _ (Nat.le_refl _)]
  change _ ++ ([] ++ itemsOf (1 + newlines s.toList + 1) (pieces t.toList)) = _
  rw [Nat.add_assoc, Nat.add_comm _ 1, List.nil_append, itemsOf_down]
  rfl

theorem faultsOf_scan (source : String) : faultsOf (scan source) = faultsOf (sourceItems source) := by
  simp [scan_eq, faultsOf]

theorem tokensOf_scan (source : String) :
    tokensOf (scan source) = tokensOf (sourceItems source) ++ [.atEnd (1 + newlines source.toList)] := by
  simp [scan_eq, tokensOf]

theorem tokensOf_down (k : Nat) (items : List (Except Fault Token)) :
    tokensOf (items.map (itemDown k)) = (tokensOf items).map (Token.down k) := by
  unfold tokensOf
  rw [List.filterMap_map, List.map_filterMap]
  congr 1
  funext item
  cases item <;> rfl

theorem faultsOf_down (k : Nat) (items : List (Except Fault Token)) :
    faultsOf (items.map (itemDown k)) = (faultsOf items).map (Fault.down k) := by
  unfold faultsOf
  rw [List.filterMap_map, List.map_filterMap]
  congr 1
  funext item
  cases item <;> rfl

/-! ## The end -/

theorem ofWord_ne {kind : Kind} (hi : Kind.identifier ≠ kind) (h : ∀ p ∈ Kind.words, p.2 ≠ kind) (word : String) :
    Kind.ofWord word ≠ kind := by
  unfold Kind.ofWord
  cases hw : Kind.words.lookup word with
  | none => exact hi
  | some found =>
    obtain ⟨l, l', hl, -⟩ := List.lookup_eq_some_iff.1 hw
    exact h (word, found) (by rw [hl]; simp)

/-- No piece of a text is an end. -/
theorem cut_ne_eof (c : Char) (cs : List Char) : (cut c cs).piece ≠ .token .eof := by
  unfold cut
  split
  · simp
  split
  · unfold cutNumber
    split
    · split <;> simp
    · simp
  split
  · simpa [cutWord] using ofWord_ne (by decide) (by decide) _
  split
  · unfold cutString
    split <;> simp
  split
  · split <;> simp [cutComment]
  split
  · next hk =>
    unfold Kind.ofMark? at hk
    split at hk <;> cases hk <;> simp
  · next hk =>
    unfold Kind.ofComparison? at hk
    unfold cutComparison
    split at hk <;> cases hk <;> split <;> simp
  · simp

theorem exists_piece_of_mem_itemsOf {line : Nat} {ps : List Cut} {t : Token} (h : .ok t ∈ itemsOf line ps) :
    ∃ p ∈ ps, p.piece = .token t.kind ∧ t.lexeme = String.ofList p.chars := by
  induction ps generalizing line with
  | nil => cases h
  | cons p ps ih =>
    rcases List.mem_append.1 h with h | h
    · refine ⟨p, List.mem_cons_self, ?_⟩
      rw [Option.mem_toList, Cut.item?] at h
      split at h <;> cases h
      exact ⟨by assumption, rfl⟩
    · obtain ⟨q, hq, hk⟩ := ih h
      exact ⟨q, List.mem_cons_of_mem _ hq, hk⟩

/-- **Every token of a text is cut off some text.** -/
theorem exists_cut_of_token {source : String} {t : Token} (h : t ∈ tokensOf (sourceItems source)) :
    ∃ c cs, (cut c cs).piece = .token t.kind ∧ t.lexeme = String.ofList (cut c cs).chars := by
  obtain ⟨item, hi, ht⟩ := List.mem_filterMap.1 h
  cases item with
  | error f => cases ht
  | ok u =>
    cases ht
    obtain ⟨p, hp, hk⟩ := exists_piece_of_mem_itemsOf hi
    obtain ⟨-, c, cs, -, rfl⟩ := exists_cut_of_mem _ (Nat.le_refl _) p hp
    exact ⟨c, cs, hk⟩

theorem kind_ne_eof {source : String} {t : Token} (h : t ∈ tokensOf (sourceItems source)) : t.kind ≠ .eof := by
  obtain ⟨c, cs, hk, -⟩ := exists_cut_of_token h
  intro he
  exact cut_ne_eof c cs (he ▸ hk)

end Scriptlet
