import Scriptlet.Fault

/-!
# Cutting a text into tokens

A text is cut from its first character to its last.  `cut` takes the first piece off a text: the longest one that is a
token, a blank or a comment; a string that is never closed; or a single character that begins none of these.  Lines are
counted at newlines between the tokens and inside strings, and the line that a piece ends on is the line of its token or
fault.  `scan` gives all items of a text at once, a `Reader` one after the other.
-/
namespace Scriptlet

def isDigit (c : Char) : Bool := '0' ≤ c && c ≤ '9'

def isWordStart (c : Char) : Bool := ('a' ≤ c && c ≤ 'z') || ('A' ≤ c && c ≤ 'Z') || c = '_'

def isWordPart (c : Char) : Bool := isWordStart c || isDigit c

def isBlank (c : Char) : Bool := c = ' ' || c = '\r' || c = '\t' || c = '\n'

/-- What a piece of text is. -/
inductive Piece where
  /-- White space or a comment. -/
  | gap
  | token (kind : Kind)
  /-- A string that is not closed. -/
  | unclosed
  /-- A character that begins nothing. -/
  | stray (c : Char)
  deriving DecidableEq

/-- The first piece of a text, its characters, and the text behind it. -/
structure Cut where
  piece : Piece
  chars : List Char
  rest : List Char
  deriving DecidableEq

/-- Behind two slashes: a comment up to the end of the line. -/
def cutComment (cs : List Char) : Cut :=
  ⟨.gap, '/' :: '/' :: cs.takeWhile (· ≠ '\n'), cs.dropWhile (· ≠ '\n')⟩

/-- Behind an opening quote. -/
def cutString (cs : List Char) : Cut :=
  let content := cs.takeWhile (· ≠ '"')
  match cs.dropWhile (· ≠ '"') with
  | [] => ⟨.unclosed, '"' :: content, []⟩
  | quote :: rest => ⟨.token (.string (String.ofList content)), '"' :: content ++ [quote], rest⟩

/-- A point belongs to a number only if a digit follows it. -/
def cutNumber (cs : List Char) : Cut :=
  let whole := cs.takeWhile isDigit
  match cs.dropWhile isDigit with
  | '.' :: d :: ds =>
    if isDigit d then
      let fraction := (d :: ds).takeWhile isDigit
      ⟨.token (.number (.ofDigits whole fraction)), whole ++ '.' :: fraction, (d :: ds).dropWhile isDigit⟩
    else ⟨.token (.number (.ofDigits whole [])), whole, '.' :: d :: ds⟩
  | rest => ⟨.token (.number (.ofDigits whole [])), whole, rest⟩

def cutWord (cs : List Char) : Cut :=
  let word := cs.takeWhile isWordPart
  ⟨.token (.ofWord (String.ofList word)), word, cs.dropWhile isWordPart⟩

/-- A mark that an equals sign may follow. -/
def cutComparison (c : Char) (alone both : Kind) : List Char → Cut
  | '=' :: rest => ⟨.token both, [c, '='], rest⟩
  | rest => ⟨.token alone, [c], rest⟩

/-- The first piece of the text `c :: cs`. -/
def cut (c : Char) (cs : List Char) : Cut :=
  if isBlank c then ⟨.gap, [c], cs⟩
  else if isDigit c then cutNumber (c :: cs)
  else if isWordStart c then cutWord (c :: cs)
  else if c = '"' then cutString cs
  else if c = '/' then
    match cs with
    | '/' :: comment => cutComment comment
    | _ => ⟨.token .slash, [c], cs⟩
  else match Kind.ofMark? c, Kind.ofComparison? c with
    | some kind, _ => ⟨.token kind, [c], cs⟩
    | none, some (alone, both) => cutComparison c alone both cs
    | none, none => ⟨.stray c, [c], cs⟩

theorem cutString_chars_append_rest (cs : List Char) : (cutString cs).chars ++ (cutString cs).rest = '"' :: cs := by
  have h := @List.takeWhile_append_dropWhile _ (fun c => decide (c ≠ '"')) cs
  unfold cutString
  split
  · rename_i heq
    rw [heq] at h
    simpa using h
  · rename_i quote rest heq
    rw [heq] at h
    simpa using h

theorem cutNumber_chars_append_rest (cs : List Char) : (cutNumber cs).chars ++ (cutNumber cs).rest = cs := by
  have h := @List.takeWhile_append_dropWhile _ isDigit cs
  unfold cutNumber
  split
  · rename_i d ds heq
    rw [heq] at h
    split
    · simpa using h
    · exact h
  · exact h

/-- **Nothing is lost**: the first piece and the text behind it are the text. -/
theorem cut_chars_append_rest (c : Char) (cs : List Char) : (cut c cs).chars ++ (cut c cs).rest = c :: cs := by
  unfold cut
  split
  · rfl
  split
  · exact cutNumber_chars_append_rest _
  split
  · simp [cutWord]
  split
  · rename_i h
    rw [h]
    exact cutString_chars_append_rest cs
  split
  · rename_i h
    split
    · simp [cutComment, h]
    · rfl
  split
  · rfl
  · unfold cutComparison
    split <;> rfl
  · rfl

def newlines (cs : List Char) : Nat := cs.count '\n'

/-- The pieces of a text of at most `n` characters, in order. -/
def cuts : Nat → List Char → List Cut
  | n + 1, c :: cs =>
    let p := cut c cs
    p :: cuts n p.rest
  | _, _ => []

/-- The lines that a piece ends: one if it is a newline, and those inside a string.  Nothing is counted in other
pieces. -/
def Cut.lines (p : Cut) : Nat :=
  match p.piece with
  | .gap => if p.chars = ['\n'] then 1 else 0
  | .token (.string _) => newlines p.chars
  | .unclosed => newlines p.chars
  | _ => 0

/-- What a piece that ends on `line` adds to the token list. -/
def Cut.item? (p : Cut) (line : Nat) : Option (Except Fault Token) :=
  match p.piece with
  | .gap => none
  | .token kind => some (.ok ⟨kind, String.ofList p.chars, line⟩)
  | .unclosed => some (.error (.lex line .unterminatedString))
  | .stray c => some (.error (.lex line (.unexpectedCharacter c)))

/-- The items of pieces that begin on `line`, and the end behind them. -/
def itemsFrom (line : Nat) : List Cut → List (Except Fault Token)
  | [] => [.ok (.atEnd line)]
  | p :: ps =>
    let line := line + p.lines
    (p.item? line).toList ++ itemsFrom line ps

/-- The tokens of a text and its lexical faults, in order; the last item is the end of the text. -/
def scan (source : String) : List (Except Fault Token) :=
  let cs := source.toList
  itemsFrom 1 (cuts cs.length cs)

/-- A text that is being read: what is left of it, the line on which that begins, and whether its end has been given. -/
structure Reader where
  rest : List Char
  line : Nat
  ended : Bool

namespace Reader

/-- A text of which nothing has been read. -/
def start (source : String) : Reader := ⟨source.toList, 1, false⟩

/-- The next item of a text of at most `n` characters and the reader behind it; gaps are passed over. -/
def advance : Nat → List Char → Nat → Except Fault Token × Reader
  | n + 1, c :: cs, line =>
    let p := cut c cs
    let line := line + p.lines
    match p.item? line with
    | some item => (item, ⟨p.rest, line, false⟩)
    | none => advance n p.rest line
  | _, _, line => (.ok (.atEnd line), ⟨[], line, true⟩)

/-- The next item and the reader behind it.  Behind the end there is nothing. -/
def next (r : Reader) : Option (Except Fault Token) × Reader :=
  if r.ended then (none, r)
  else
    let (item, r) := advance r.rest.length r.rest r.line
    (some item, r)

end Reader

/-- The tokens among the items of a text. -/
def tokensOf (items : List (Except Fault Token)) : List Token := items.filterMap fun
  | .ok t => some t
  | .error _ => none

/-- The faults among the items of a text. -/
def faultsOf (items : List (Except Fault Token)) : List Fault := items.filterMap fun
  | .ok _ => none
  | .error f => some f

end Scriptlet
