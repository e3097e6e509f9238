import Scriptlet.Tree
import Scriptlet.Fault

/-!
# Reading trees from tokens

Recursive descent, one definition for each rule of the grammar:

    program      declaration* end
    declaration  "fun" name "(" parameters? ")" block  |  "var" name ( "=" expression )? ";"  |  statement
    statement    expression ";"  |  "print" expression ";"  |  "return" expression? ";"  |  block
               | "if" "(" expression ")" statement ( "else" statement )?  |  "while" "(" expression ")" statement
               | "for" "(" ( "var" … | expression ";" | ";" ) expression? ";" expression? ")" statement
    block        "{" declaration* "}"
    expression   ( name "=" expression )  |  or
    or           and ( "or" and )*                     and        equality ( "and" equality )*
    equality     comparison ( ( "!=" | "==" ) comparison )*
    comparison   term ( ( ">" | ">=" | "<" | "<=" ) term )*
    term         factor ( ( "-" | "+" ) factor )*      factor     unary ( ( "/" | "*" ) unary )*
    unary        ( "!" | "-" ) unary  |  call          call       primary ( "(" arguments? ")" )*

A rule that fails notes a fault and gives up its declaration; reading goes on at the next one.  Too long a parameter or
argument list and an assignment to something else than a name are noted too, but do not stop the rule.

A number `n` that a rule is given bounds the tokens that are left.  Where it is zero nothing is left, and the rule does
what it does at the end of the text.
-/
namespace Scriptlet

/-- Where a parse stands. -/
structure Cursor where
  /-- The tokens to come, without the end. -/
  rest : List Token
  /-- The token at the end. -/
  stop : Token
  /-- The number of the next node. -/
  fresh : Nat
  /-- What has been noted, in order. -/
  faults : List Fault

namespace Cursor

/-- The next token, which may be the end. -/
def peek (c : Cursor) : Token := c.rest.headD c.stop

def note (c : Cursor) (t : Token) (cause : Cause) : Cursor :=
  { c with faults := c.faults ++ [.parse t.site cause] }

/-- Whether the next token is of the kind.  The end is of no kind that is asked for. -/
def sees (c : Cursor) (kind : Kind) : Bool := c.rest.head?.any (·.kind = kind)

end Cursor

/-- A rule of the grammar: what it reads, or nothing if it gave up, and where the parse stands then. -/
def Parse (α : Type) : Type := Cursor → Option α × Cursor

namespace Parse

instance : Monad Parse where
  pure a := fun c => (some a, c)
  bind p f := fun c =>
    match p c with
    | (some a, c) => f a c
    | (none, c) => (none, c)

/-- Gives up: the next token is not what the grammar asks for. -/
def fail {α : Type} (what : String) : Parse α := fun c => (none, c.note c.peek (.expected what))

def note (t : Token) (cause : Cause) : Parse Unit := fun c => (some (), c.note t cause)

def peek : Parse Token := fun c => (some c.peek, c)

def sees (kind : Kind) : Parse Bool := fun c => (some (c.sees kind), c)

def atEnd : Parse Bool := fun c => (some c.rest.isEmpty, c)

/-- The number of a new node. -/
def fresh : Parse Nat := fun c => (some c.fresh, { c with fresh := c.fresh + 1 })

/-- The next token if it is of such a kind. -/
def take? (p : Kind → Bool) : Parse (Option Token) := fun c =>
  match c.rest with
  | t :: ts => if p t.kind then (some (some t), { c with rest := ts }) else (some none, c)
  | [] => (some none, c)

/-- Passes the next token if it is of the kind. -/
def accept (kind : Kind) : Parse Bool := do
  let t ← take? (· = kind)
  return t.isSome

def expect (kind : Kind) (what : String) : Parse Token := do
  match ← take? (· = kind) with
  | some t => return t
  | none => fail what

/-- One item or more with commas between them.  Each is told how many stand before it. -/
def separated {α : Type} (item : Nat → Parse α) : Nat → Nat → Parse (List α)
  | 0, i => do
    let a ← item i
    return [a]
  | n + 1, i => do
    let a ← item i
    if ← accept .comma then
      let as ← separated item n (i + 1)
      return a :: as
    else return [a]

/-- A list in parentheses, up to the closing one.  An item past the limit is noted. -/
def listed {α : Type} (item : Parse α) (what : String) (n : Nat) : Parse (List α) := do
  if ← sees .rightParen then return []
  separated (fun i => do
    if maxArity ≤ i then note (← peek) (.tooMany what)
    item) n 0

/-! ## Expressions -/

def beginsPrimary : Kind → Bool
  | .falseWord | .trueWord | .nilWord | .number _ | .string _ | .identifier | .leftParen => true
  | _ => false

def primary (expression : Parse Expr) : Parse Expr := do
  match ← take? beginsPrimary with
  | none => fail "expression"
  | some t =>
    match t.kind with
    | .falseWord => return .literal (.bool false)
    | .trueWord => return .literal (.bool true)
    | .nilWord => return .literal .nil
    | .number x => return .literal (.number x)
    | .string s => return .literal (.text s)
    | .identifier => return .variable (← fresh) t
    | _ =>
      let inner ← expression
      let _ ← expect .rightParen "')' after expression"
      return .group inner

/-- The argument lists behind a callee. -/
def calls (expression : Parse Expr) : Nat → Expr → Parse Expr
  | 0, callee => return callee
  | n + 1, callee => do
    if ← accept .leftParen then
      let arguments ← listed expression "arguments" n
      let paren ← expect .rightParen "')' after arguments"
      calls expression n (.call callee paren arguments)
    else return callee

def unary (operand : Parse Expr) : Nat → Parse Expr
  | 0 => operand
  | n + 1 => do
    match ← take? (fun k => k = .bang || k = .minus) with
    | some operator =>
      let right ← unary operand n
      return .unary operator right
    | none => operand

/-- The levels of the operators with two sides, from the loosest to the tightest. -/
inductive Level where
  | or
  | and
  | equality
  | comparison
  | term
  | factor

namespace Level

def has : Level → Kind → Bool
  | or, .orWord => true
  | and, .andWord => true
  | equality, .bangEqual | equality, .equalEqual => true
  | comparison, .greater | comparison, .greaterEqual | comparison, .less | comparison, .lessEqual => true
  | term, .minus | term, .plus => true
  | factor, .slash | factor, .star => true
  | _, _ => false

def join (level : Level) (left : Expr) (operator : Token) (right : Expr) : Expr :=
  match level with
  | or | and => .logical left operator right
  | _ => .binary left operator right

end Level

/-- The operators of a level and their right sides, joined from the left. -/
def joined (level : Level) (operand : Parse Expr) : Nat → Expr → Parse Expr
  | 0, left => return left
  | n + 1, left => do
    match ← take? level.has with
    | some operator =>
      let right ← operand
      joined level operand n (level.join left operator right)
    | none => return left

def chain (level : Level) (n : Nat) (operand : Parse Expr) : Parse Expr := do
  let left ← operand
  joined level operand n left

/-- Everything above assignment. -/
def operation (n : Nat) (expression : Parse Expr) : Parse Expr :=
  chain .or n <| chain .and n <| chain .equality n <| chain .comparison n <| chain .term n <| chain .factor n <|
    unary (do calls expression n (← primary expression)) n

def assignment (n : Nat) (expression : Parse Expr) : Parse Expr := do
  let target ← operation n expression
  match ← take? (· = .equal) with
  | none => return target
  | some equals =>
    let value ← expression
    match target with
    | .variable _ name => return .assign (← fresh) name value
    | _ =>
      note equals .invalidTarget
      return target

def expression : Nat → Parse Expr
  | 0, c => fail "expression" c
  | n + 1, c => assignment (n + 1) (expression n) c

/-! ## Statements -/

def ended (n : Nat) (what : String) : Parse Expr := do
  let value ← expression n
  let _ ← expect .semicolon what
  return value

def expressionStatement (n : Nat) : Parse Stmt := return .expression (← ended n "';' after expression")

def printStatement (n : Nat) : Parse Stmt := return .print (← ended n "';' after value")

def returnStatement (n : Nat) (keyword : Token) : Parse Stmt := do
  let value ← if ← sees .semicolon then pure none else some <$> expression n
  let _ ← expect .semicolon "';' after return value"
  return .return keyword value

def varDeclaration (n : Nat) : Parse Stmt := do
  let name ← expect .identifier "variable name"
  let initializer ← if ← accept .equal then some <$> expression n else pure none
  let _ ← expect .semicolon "';' after variable declaration"
  return .var name initializer

def ifStatement (n : Nat) (statement : Parse Stmt) : Parse Stmt := do
  let _ ← expect .leftParen "'(' after 'if'"
  let test ← expression n
  let _ ← expect .rightParen "')' after if condition"
  let yes ← statement
  let no ← if ← accept .elseWord then some <$> statement else pure none
  return .conditional test yes no

def whileStatement (n : Nat) (statement : Parse Stmt) : Parse Stmt := do
  let _ ← expect .leftParen "'(' after 'while'"
  let test ← expression n
  let _ ← expect .rightParen "')' after condition"
  let body ← statement
  return .while test body

def forInitializer (n : Nat) : Parse (Option Stmt) := do
  if ← accept .semicolon then return none
  if ← accept .varWord then return some (← varDeclaration n)
  return some (← expressionStatement n)

def forStatement (n : Nat) (statement : Parse Stmt) : Parse Stmt := do
  let _ ← expect .leftParen "'(' after 'for'"
  let initializer ← forInitializer n
  let test ← if ← sees .semicolon then pure none else some <$> expression n
  let _ ← expect .semicolon "';' after loop condition"
  let step ← if ← sees .rightParen then pure none else some <$> expression n
  let _ ← expect .rightParen "')' after for clauses"
  let body ← statement
  return .ofFor initializer test step body

/-- The statements of a block whose opening brace is passed. -/
def block (body : Parse (List Stmt)) : Parse (List Stmt) := do
  let statements ← body
  let _ ← expect .rightBrace "'\x7d' after block"
  return statements

def beginsForm : Kind → Bool
  | .forWord | .ifWord | .printWord | .returnWord | .whileWord | .leftBrace => true
  | _ => false

/-- A statement, given how to read those inside it and the inside of a block. -/
def statementWith (n : Nat) (statement : Parse Stmt) (body : Parse (List Stmt)) : Parse Stmt := do
  match ← take? beginsForm with
  | none => expressionStatement n
  | some t =>
    match t.kind with
    | .forWord => forStatement n statement
    | .ifWord => ifStatement n statement
    | .printWord => printStatement n
    | .returnWord => returnStatement n t
    | .whileWord => whileStatement n statement
    | _ => return .block (← block body)

def functionDeclaration (n : Nat) (body : Parse (List Stmt)) : Parse Stmt := do
  let name ← expect .identifier "function name"
  let _ ← expect .leftParen "'(' after function name"
  let params ← listed (expect .identifier "parameter name") "parameters" n
  let _ ← expect .rightParen "')' after parameters"
  let _ ← expect .leftBrace "'\x7b' before function body"
  return .function name params (← block body)

/-- The tokens behind the next statement boundary: one token is dropped, and then all up to a semicolon, which is
dropped too, or to a word that begins a statement. -/
def skip : List Token → List Token
  | [] => []
  | t :: ts =>
    if t.kind = .semicolon then ts
    else if ts.head?.any (·.kind.beginsStatement) then ts
    else skip ts

/-- Goes on at the next statement boundary if the rule gives up. -/
def recovering {α : Type} (p : Parse α) : Parse (Option α) := fun c =>
  match p c with
  | (some a, c) => (some (some a), c)
  | (none, c) => (some none, { c with rest := skip c.rest })

/-- A declaration, or nothing where one was given up. -/
def declaration (n : Nat) (statement : Parse Stmt) (body : Parse (List Stmt)) : Parse (Option Stmt) := recovering do
  if ← accept .funWord then functionDeclaration n body
  else if ← accept .varWord then varDeclaration n
  else statement

/-- The declarations up to the end or a token of the kind `close`, without those given up. -/
def declarations (close : Kind) (one : Parse (Option Stmt)) : Nat → Parse (List Stmt)
  | 0 => return []
  | n + 1 => do
    if ← sees close then return []
    if ← atEnd then return []
    let stmt ← one
    let stmts ← declarations close one n
    return stmt.toList ++ stmts

mutual
def statement : Nat → Parse Stmt
  | 0, c => expressionStatement 0 c
  | n + 1, c => statementWith (n + 1) (statement n) (body n) c

/-- The inside of a block. -/
def body : Nat → Parse (List Stmt)
  | 0, c => (some [], c)
  | n + 1, c =>
    declarations .rightBrace
      (declaration (n + 1) (statementWith (n + 1) (statement n) (body n)) (body n)) (n + 1) c
end

end Parse

/-- What a token list holds: the statements that could be read, the syntax faults in order, and the number that the
next node would get. -/
structure Parsed where
  statements : List Stmt
  faults : List Fault
  fresh : Nat

/-- Reads the tokens up to the first end.  If there is none, the end is on the line of the last token, or on line 1.
The nodes are numbered from `fresh`. -/
def parse (fresh : Nat) (tokens : List Token) : Parsed :=
  let rest := tokens.takeWhile (·.kind ≠ .eof)
  let stop := tokens.find? (·.kind = .eof)
  let stop := stop.getD (.atEnd ((tokens.getLast?.map Token.line).getD 1))
  let n := rest.length
  let (statements, c) :=
    Parse.declarations .eof (Parse.declaration n (Parse.statement n) (Parse.body n)) n
      { rest, stop, fresh, faults := [] }
  { statements := statements.getD [], faults := c.faults, fresh := c.fresh }

end Scriptlet
