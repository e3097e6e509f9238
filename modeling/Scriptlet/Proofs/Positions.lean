import Scriptlet.Proofs.Statements

/-!
# Reading by position

The grammar read with an index into the tokens.  Every look at a token is an access at `current` or right before it, and
one outside the list leads astray.  Every recursion has a bound that it must not use up.  The walk keeps a record: the
values that `current` has had, and where each declaration began and ended.
-/
namespace Scriptlet

/-- Where a walk stands, and its record. -/
structure Stand where
  current : Nat
  /-- The positions before this one, the latest first. -/
  earlier : List Nat
  /-- Where each declaration that was read or given up began, and where it ended. -/
  declarations : List (Nat × Nat)
  /-- The number of the next node. -/
  fresh : Nat
  /-- What has been noted, in order. -/
  faults : List Fault

namespace Stand

def initial (fresh : Nat) : Stand := { current := 0, earlier := [], declarations := [], fresh, faults := [] }

/-- All positions of the walk, in order. -/
def positions (s : Stand) : List Nat := (s.current :: s.earlier).reverse

def next (s : Stand) : Stand := { s with current := s.current + 1, earlier := s.current :: s.earlier }

def note (s : Stand) (t : Token) (cause : Cause) : Stand := { s with faults := s.faults ++ [.parse t.site cause] }

end Stand

/-- How a rule ends. -/
inductive Ending (α : Type) where
  | value (a : α)
  /-- The rule gave up. -/
  | failed
  /-- There is no token at a position that was looked at. -/
  | astray
  /-- A bound is used up. -/
  | spent

/-- A rule over a list of tokens. -/
def Walk (α : Type) : Type := List Token → Stand → Ending α × Stand

namespace Walk

instance : Monad Walk where
  pure a := fun _ s => (.value a, s)
  bind w f := fun tokens s =>
    match w tokens s with
    | (.value a, s) => f a tokens s
    | (.failed, s) => (.failed, s)
    | (.astray, s) => (.astray, s)
    | (.spent, s) => (.spent, s)

variable {α β : Type}

/-! ## Steps -/

def astray : Walk α := fun _ s => (.astray, s)

def spent : Walk α := fun _ s => (.spent, s)

def giveUp : Walk α := fun _ s => (.failed, s)

def position : Walk Nat := fun _ s => (.value s.current, s)

/-- The token at the position. -/
def access (i : Nat) : Walk Token := fun tokens s =>
  match tokens[i]? with
  | some t => (.value t, s)
  | none => (.astray, s)

def peek : Walk Token := position >>= access

/-- The token right before the current one. -/
def previous : Walk Token := position >>= fun i =>
  match i with
  | 0 => astray
  | i + 1 => access i

def atEnd : Walk Bool := peek >>= fun t => pure (t.kind = .eof)

def sees (p : Kind → Bool) : Walk Bool := atEnd >>= fun b =>
  if b then pure false else peek >>= fun t => pure (p t.kind)

/-- The only step that changes the position. -/
def pass : Walk Unit := fun _ s => (.value (), s.next)

def advance : Walk Token := atEnd >>= fun b => if b then previous else pass >>= fun _ => previous

def note (t : Token) (cause : Cause) : Walk Unit := fun _ s => (.value (), s.note t cause)

def fail (what : String) : Walk α := peek >>= fun t => note t (.expected what) >>= fun _ => giveUp

def fresh : Walk Nat := fun _ s => (.value s.fresh, { s with fresh := s.fresh + 1 })

def take? (p : Kind → Bool) : Walk (Option Token) := sees p >>= fun b => if b then some <$> advance else pure none

def accept (kind : Kind) : Walk Bool := take? (· = kind) >>= fun o => pure o.isSome

def expect (kind : Kind) (what : String) : Walk Token := take? (· = kind) >>= fun o =>
  match o with
  | some t => pure t
  | none => fail what

/-! ## Lists and expressions -/

def separated (item : Nat → Walk α) : Nat → Nat → Walk (List α)
  | 0, _ => spent
  | n + 1, i => do
    let a ← item i
    if ← accept .comma then
      let as ← separated item n (i + 1)
      return a :: as
    else return [a]

def counted (item : Walk α) (what : String) (i : Nat) : Walk α :=
  if maxArity ≤ i then peek >>= fun t => note t (.tooMany what) >>= fun _ => item else item

def listed (item : Walk α) (what : String) (n : Nat) : Walk (List α) :=
  sees (· = .rightParen) >>= fun b => if b then pure [] else separated (counted item what) n 0

def primaryFrom (e : Walk Expr) (t : Token) : Walk Expr :=
  match Grammar.literalOf? t.kind with
  | some v => pure (.literal v)
  | none =>
    if t.kind = .identifier then fresh >>= fun k => pure (.variable k t)
    else e >>= fun inner => expect .rightParen "')' after expression" >>= fun _ => pure (.group inner)

def primary (e : Walk Expr) : Walk Expr := take? Parse.beginsPrimary >>= fun o =>
  match o with
  | none => fail "expression"
  | some t => primaryFrom e t

def calls (e : Walk Expr) : Nat → Expr → Walk Expr
  | 0, _ => spent
  | n + 1, callee => do
    if ← accept .leftParen then
      let arguments ← listed e "arguments" n
      let paren ← expect .rightParen "')' after arguments"
      calls e n (.call callee paren arguments)
    else return callee

def unary (operand : Walk Expr) : Nat → Walk Expr
  | 0 => spent
  | n + 1 => do
    match ← take? (fun k => k = .bang || k = .minus) with
    | some operator =>
      let right ← unary operand n
      return .unary operator right
    | none => operand

def joined (level : Parse.Level) (operand : Walk Expr) : Nat → Expr → Walk Expr
  | 0, _ => spent
  | n + 1, left => do
    match ← take? level.has with
    | some operator =>
      let right ← operand
      joined level operand n (level.join left operator right)
    | none => return left

def chain (level : Parse.Level) (n : Nat) (operand : Walk Expr) : Walk Expr := operand >>= joined level operand n

def operation (n : Nat) (e : Walk Expr) : Walk Expr :=
  chain .or n <| chain .and n <| chain .equality n <| chain .comparison n <| chain .term n <| chain .factor n <|
    unary (primary e >>= calls e n) n

def assignTo (target : Expr) (equals : Token) (value : Expr) : Walk Expr :=
  match target with
  | .variable _ name => fresh >>= fun k => pure (.assign k name value)
  | _ => note equals .invalidTarget >>= fun _ => pure target

def assignment (n : Nat) (e : Walk Expr) : Walk Expr := operation n e >>= fun target =>
  take? (· = .equal) >>= fun o =>
    match o with
    | none => pure target
    | some equals => e >>= assignTo target equals

def expression : Nat → Walk Expr
  | 0 => spent
  | n + 1 => assignment (n + 1) (expression n)

/-! ## Statements -/

def ended (n : Nat) (what : String) (make : Expr → Stmt) : Walk Stmt :=
  expression n >>= fun value => expect .semicolon what >>= fun _ => pure (make value)

def expressionStatement (n : Nat) : Walk Stmt := ended n "';' after expression" .expression

def printStatement (n : Nat) : Walk Stmt := ended n "';' after value" .print

/-- An expression, if the kind is not there at once, and the kind. -/
def optionalUpTo (n : Nat) (kind : Kind) (what : String) (rest : Option Expr → Walk β) : Walk β :=
  sees (· = kind) >>= fun b =>
    if b then expect kind what >>= fun _ => rest none
    else expression n >>= fun value => expect kind what >>= fun _ => rest (some value)

def returnStatement (n : Nat) (keyword : Token) : Walk Stmt :=
  optionalUpTo n .semicolon "';' after return value" fun value => pure (.return keyword value)

def varDeclaration (n : Nat) : Walk Stmt := do
  let name ← expect .identifier "variable name"
  if ← accept .equal then ended n "';' after variable declaration" fun value => .var name (some value)
  else expect .semicolon "';' after variable declaration" >>= fun _ => pure (.var name none)

def ifStatement (n : Nat) (statement : Walk Stmt) : Walk Stmt := do
  let _ ← expect .leftParen "'(' after 'if'"
  let test ← expression n
  let _ ← expect .rightParen "')' after if condition"
  let yes ← statement
  if ← accept .elseWord then
    let no ← statement
    return .conditional test yes (some no)
  else return .conditional test yes none

def whileStatement (n : Nat) (statement : Walk Stmt) : Walk Stmt := do
  let _ ← expect .leftParen "'(' after 'while'"
  let test ← expression n
  let _ ← expect .rightParen "')' after condition"
  let body ← statement
  return .while test body

def forInitializer (n : Nat) : Walk (Option Stmt) := do
  if ← accept .semicolon then return none
  else if ← accept .varWord then some <$> varDeclaration n
  else some <$> expressionStatement n

def forStatement (n : Nat) (statement : Walk Stmt) : Walk Stmt := do
  let _ ← expect .leftParen "'(' after 'for'"
  let initializer ← forInitializer n
  optionalUpTo n .semicolon "';' after loop condition" fun test =>
    optionalUpTo n .rightParen "')' after for clauses" fun step => do
      let body ← statement
      return .ofFor initializer test step body

def block (body : Walk (List Stmt)) (make : List Stmt → Stmt) : Walk Stmt :=
  body >>= fun statements => expect .rightBrace "'\x7d' after block" >>= fun _ => pure (make statements)

def statementFrom (n : Nat) (statement : Walk Stmt) (body : Walk (List Stmt)) (word : Token) : Kind → Walk Stmt
  | .forWord => forStatement n statement
  | .ifWord => ifStatement n statement
  | .printWord => printStatement n
  | .returnWord => returnStatement n word
  | .whileWord => whileStatement n statement
  | _ => block body .block

def statementWith (n : Nat) (statement : Walk Stmt) (body : Walk (List Stmt)) : Walk Stmt :=
  take? Parse.beginsForm >>= fun o =>
    match o with
    | none => expressionStatement n
    | some t => statementFrom n statement body t t.kind

def functionDeclaration (n : Nat) (body : Walk (List Stmt)) : Walk Stmt := do
  let name ← expect .identifier "function name"
  let _ ← expect .leftParen "'(' after function name"
  let params ← listed (expect .identifier "parameter name") "parameters" n
  let _ ← expect .rightParen "')' after parameters"
  let _ ← expect .leftBrace "'\x7b' before function body"
  block body (.function name params)

/-- Goes on to a statement boundary: behind a semicolon, or in front of a word that begins a statement. -/
def toBoundary : Nat → Walk Unit
  | 0 => spent
  | n + 1 => do
    if ← atEnd then return ()
    else if (← previous).kind = .semicolon then return ()
    else if (← peek).kind.beginsStatement then return ()
    else
      let _ ← advance
      toBoundary n

/-- Goes on behind the token at which a rule gave up, and from there to a statement boundary. -/
def recovering (n : Nat) (w : Walk α) : Walk (Option α) := fun tokens s =>
  match w tokens s with
  | (.value a, s) => (.value (some a), s)
  | (.failed, s) => (advance >>= fun _ => toBoundary n >>= fun _ => pure none) tokens s
  | (.astray, s) => (.astray, s)
  | (.spent, s) => (.spent, s)

/-- Puts a declaration on record that began at the position and ends here. -/
def record (start : Nat) : Walk Unit := fun _ s =>
  (.value (), { s with declarations := s.declarations ++ [(start, s.current)] })

def recorded (w : Walk α) : Walk α := position >>= fun start => w >>= fun a => record start >>= fun _ => pure a

def declared (n : Nat) (statement : Walk Stmt) (body : Walk (List Stmt)) : Walk Stmt := do
  if ← accept .funWord then functionDeclaration n body
  else if ← accept .varWord then varDeclaration n
  else statement

def declaration (n : Nat) (statement : Walk Stmt) (body : Walk (List Stmt)) : Walk (Option Stmt) :=
  recorded (recovering n (declared n statement body))

def declarations (close : Kind) (one : Walk (Option Stmt)) : Nat → Walk (List Stmt)
  | 0 => spent
  | n + 1 => do
    if ← sees (· = close) then return []
    else if ← atEnd then return []
    else
      let stmt ← one
      let stmts ← declarations close one n
      return stmt.toList ++ stmts

mutual
def statement : Nat → Walk Stmt
  | 0 => spent
  | n + 1 => statementWith (n + 1) (statement n) (body n)

def body : Nat → Walk (List Stmt)
  | 0 => spent
  | n + 1 =>
    declarations .rightBrace (declaration (n + 1) (statementWith (n + 1) (statement n) (body n)) (body n)) (n + 1)
end

def program (n : Nat) : Walk (List Stmt) := declarations .eof (declaration n (statement n) (body n)) n

end Walk

/-- The tokens with an end: if the last one is none, one is put behind it, on its line or on line 1. -/
def withEnd (tokens : List Token) : List Token :=
  if tokens.getLast?.any (·.kind = .eof) then tokens
  else tokens ++ [.atEnd ((tokens.getLast?.map Token.line).getD 1)]

/-- Reads the tokens from the first one on, with `n` as the bound of every recursion. -/
def walk (n fresh : Nat) (tokens : List Token) : Ending (List Stmt) × Stand :=
  Walk.program n (withEnd tokens) (.initial fresh)

end Scriptlet
