import Mathlib
import Scriptlet.Tree.Parse

/-!
# The grammar

The derivations of the grammar, as trees.  A derivation keeps every token it is made of: `yield` is the token list it
derives, and `build` is the abstract tree it stands for, with the nodes numbered in the order in which they are read.

The grammar has one ambiguity, the `else` that more than one open `if` could take.  `ElseNearest` picks the derivations
in which it belongs to the nearest of them.
-/
namespace Scriptlet.Grammar

open Parse (Level)

/-- A token of one of the kinds. -/
abbrev OneOf (p : Kind → Bool) : Type := { t : Token // p t.kind = true }

/-- A token of the kind. -/
abbrev Word (kind : Kind) : Type := OneOf (· = kind)

/-! ## Expressions -/

/-- What the grammar calls an expression, from `assignment` down to `primary`. -/
inductive Symbol where
  | assignment
  | level (level : Level)
  | unary
  | call
  | primary

/-- The symbol of the two sides of an operator. -/
def operandOf : Level → Symbol
  | .or => .level .and
  | .and => .level .equality
  | .equality => .level .comparison
  | .comparison => .level .term
  | .term => .level .factor
  | .factor => .unary

/-- The value of a token that is an expression by itself, names apart. -/
def literalOf? : Kind → Option Literal
  | .falseWord => some (.bool false)
  | .trueWord => some (.bool true)
  | .nilWord => some .nil
  | .number x => some (.number x)
  | .string s => some (.text s)
  | _ => none

def isSign (k : Kind) : Bool := k = .bang || k = .minus

mutual
/-- A derivation of an expression. -/
inductive Phrase : Symbol → Type where
  | assign (name : Word .identifier) (equal : Word .equal) (value : Phrase .assignment) : Phrase .assignment
  | operation (value : Phrase (.level .or)) : Phrase .assignment
  | chain {level : Level} (first : Phrase (operandOf level)) (rest : Tail level) : Phrase (.level level)
  | signed (sign : OneOf isSign) (right : Phrase .unary) : Phrase .unary
  | unsigned (value : Phrase .call) : Phrase .unary
  | call (callee : Phrase .primary) (lists : Lists) : Phrase .call
  | literal (token : Token) (value : Literal) (h : literalOf? token.kind = some value) : Phrase .primary
  | named (token : Word .identifier) : Phrase .primary
  | group (opening : Word .leftParen) (inner : Phrase .assignment) (closing : Word .rightParen) : Phrase .primary

/-- Any number of operators of a level, each with its right side. -/
inductive Tail : Level → Type where
  | done {level : Level} : Tail level
  | more {level : Level} (operator : OneOf level.has) (right : Phrase (operandOf level)) (rest : Tail level) :
      Tail level

/-- Any number of argument lists in parentheses. -/
inductive Lists : Type where
  | done
  | empty (opening : Word .leftParen) (closing : Word .rightParen) (rest : Lists)
  | filled (opening : Word .leftParen) (arguments : Arguments) (closing : Word .rightParen) (rest : Lists)

/-- One argument or more, with commas between them. -/
inductive Arguments : Type where
  | last (value : Phrase .assignment)
  | more (value : Phrase .assignment) (comma : Word .comma) (rest : Arguments)
end

mutual
def Phrase.yield {s : Symbol} : Phrase s → List Token
  | .assign name equal value => name.1 :: equal.1 :: value.yield
  | .operation value => value.yield
  | .chain first rest => first.yield ++ rest.yield
  | .signed sign right => sign.1 :: right.yield
  | .unsigned value => value.yield
  | .call callee lists => callee.yield ++ lists.yield
  | .literal token _ _ => [token]
  | .named token => [token.1]
  | .group opening inner closing => opening.1 :: (inner.yield ++ [closing.1])

def Tail.yield {level : Level} : Tail level → List Token
  | .done => []
  | .more operator right rest => operator.1 :: (right.yield ++ rest.yield)

def Lists.yield : Lists → List Token
  | .done => []
  | .empty opening closing rest => opening.1 :: closing.1 :: rest.yield
  | .filled opening arguments closing rest => opening.1 :: (arguments.yield ++ closing.1 :: rest.yield)

def Arguments.yield : Arguments → List Token
  | .last value => value.yield
  | .more value comma rest => value.yield ++ comma.1 :: rest.yield
end

def Arguments.length : Arguments → Nat
  | .last _ => 1
  | .more _ _ rest => rest.length + 1

/-- An operator with its two sides: `or` and `and` may leave their right side alone, the others need both. -/
def operationOf : Level → Expr → Token → Expr → Expr
  | .or, left, operator, right => .logical left operator right
  | .and, left, operator, right => .logical left operator right
  | .equality, left, operator, right => .binary left operator right
  | .comparison, left, operator, right => .binary left operator right
  | .term, left, operator, right => .binary left operator right
  | .factor, left, operator, right => .binary left operator right

mutual
/-- The expression of a derivation whose nodes are numbered from `k`, and the number behind the last.  A name that
turns out to be assigned to has used a number by then. -/
def Phrase.build {s : Symbol} : Phrase s → Nat → Expr × Nat
  | .assign name _ value, k =>
    let (e, k) := value.build (k + 1)
    (.assign k name.1 e, k + 1)
  | .operation value, k => value.build k
  | .chain first rest, k =>
    let (e, k) := first.build k
    rest.build e k
  | .signed sign right, k =>
    let (e, k) := right.build k
    (.unary sign.1 e, k)
  | .unsigned value, k => value.build k
  | .call callee lists, k =>
    let (e, k) := callee.build k
    lists.build e k
  | .literal _ value _, k => (.literal value, k)
  | .named token, k => (.variable k token.1, k + 1)
  | .group _ inner _, k =>
    let (e, k) := inner.build k
    (.group e, k)

/-- The operators associate to the left. -/
def Tail.build {level : Level} : Tail level → Expr → Nat → Expr × Nat
  | .done, left, k => (left, k)
  | .more operator right rest, left, k =>
    let (e, k) := right.build k
    rest.build (operationOf level left operator.1 e) k

def Lists.build : Lists → Expr → Nat → Expr × Nat
  | .done, callee, k => (callee, k)
  | .empty _ closing rest, callee, k => rest.build (.call callee closing.1 []) k
  | .filled _ arguments closing rest, callee, k =>
    let (es, k) := arguments.build k
    rest.build (.call callee closing.1 es) k

def Arguments.build : Arguments → Nat → List Expr × Nat
  | .last value, k =>
    let (e, k) := value.build k
    ([e], k)
  | .more value _ rest, k =>
    let (e, k) := value.build k
    let (es, k) := rest.build k
    (e :: es, k)
end

mutual
/-- No argument list is longer than a call can have. -/
def Phrase.Limited {s : Symbol} : Phrase s → Prop
  | .assign _ _ value => value.Limited
  | .operation value => value.Limited
  | .chain first rest => first.Limited ∧ rest.Limited
  | .signed _ right => right.Limited
  | .unsigned value => value.Limited
  | .call callee lists => callee.Limited ∧ lists.Limited
  | .literal _ _ _ => True
  | .named _ => True
  | .group _ inner _ => inner.Limited

def Tail.Limited {level : Level} : Tail level → Prop
  | .done => True
  | .more _ right rest => right.Limited ∧ rest.Limited

def Lists.Limited : Lists → Prop
  | .done => True
  | .empty _ _ rest => rest.Limited
  | .filled _ arguments _ rest => arguments.length ≤ maxArity ∧ arguments.Limited ∧ rest.Limited

def Arguments.Limited : Arguments → Prop
  | .last value => value.Limited
  | .more value _ rest => value.Limited ∧ rest.Limited
end

/-! ## Statements -/

inductive Parameters where
  | last (name : Word .identifier)
  | more (name : Word .identifier) (comma : Word .comma) (rest : Parameters)

namespace Parameters

def yield : Parameters → List Token
  | last name => [name.1]
  | more name comma rest => name.1 :: comma.1 :: rest.yield

def names : Parameters → List Token
  | last name => [name.1]
  | more name _ rest => name.1 :: rest.names

end Parameters

/-- The expression that may follow an equals sign, or may be missing with it. -/
inductive Initializer where
  | none
  | some (equal : Word .equal) (value : Phrase .assignment)

structure VarForm where
  word : Word .varWord
  name : Word .identifier
  initializer : Initializer
  semicolon : Word .semicolon

/-- An expression that may be missing. -/
abbrev Optional : Type := Option (Phrase .assignment)

namespace Optional

def yield : Optional → List Token
  | none => []
  | some value => value.yield

def build : Optional → Nat → Option Expr × Nat
  | none, k => (none, k)
  | some value, k =>
    let (e, k) := value.build k
    (some e, k)

def Limited : Optional → Prop
  | none => True
  | some value => value.Limited

end Optional

namespace Initializer

def yield : Initializer → List Token
  | none => []
  | some equal value => equal.1 :: value.yield

def value? : Initializer → Optional
  | none => Option.none
  | some _ value => Option.some value

end Initializer

namespace VarForm

def yield (v : VarForm) : List Token := v.word.1 :: v.name.1 :: (v.initializer.yield ++ [v.semicolon.1])

def build (v : VarForm) (k : Nat) : Stmt × Nat :=
  let (e, k) := v.initializer.value?.build k
  (.var v.name.1 e, k)

def Limited (v : VarForm) : Prop := v.initializer.value?.Limited

end VarForm

/-- What may stand first behind `for (`. -/
inductive ForStart where
  | none (semicolon : Word .semicolon)
  | var (form : VarForm)
  | expression (value : Phrase .assignment) (semicolon : Word .semicolon)

namespace ForStart

def yield : ForStart → List Token
  | none semicolon => [semicolon.1]
  | var form => form.yield
  | expression value semicolon => value.yield ++ [semicolon.1]

def build : ForStart → Nat → Option Stmt × Nat
  | none _, k => (Option.none, k)
  | var form, k =>
    let (s, k) := form.build k
    (some s, k)
  | expression value _, k =>
    let (e, k) := value.build k
    (some (.expression e), k)

def Limited : ForStart → Prop
  | none _ => True
  | var form => form.Limited
  | expression value _ => value.Limited

end ForStart

/-- What stands between the words `for` and the body. -/
structure ForClauses where
  opening : Word .leftParen
  start : ForStart
  test : Optional
  semicolon : Word .semicolon
  step : Optional
  closing : Word .rightParen

namespace ForClauses

def yield (f : ForClauses) : List Token :=
  f.opening.1 :: (f.start.yield ++ (f.test.yield ++ f.semicolon.1 :: (f.step.yield ++ [f.closing.1])))

def Limited (f : ForClauses) : Prop := f.start.Limited ∧ f.test.Limited ∧ f.step.Limited

end ForClauses

/-- An expression in parentheses behind `if` or `while`. -/
structure Condition where
  opening : Word .leftParen
  test : Phrase .assignment
  closing : Word .rightParen

def Condition.yield (c : Condition) : List Token := c.opening.1 :: (c.test.yield ++ [c.closing.1])

/-- The head of a function declaration, without its word. -/
structure Header where
  name : Word .identifier
  opening : Word .leftParen
  params : Option Parameters
  closing : Word .rightParen

namespace Header

def names (h : Header) : List Token := h.params.elim [] Parameters.names

def yield (h : Header) : List Token :=
  h.name.1 :: h.opening.1 :: (h.params.elim [] Parameters.yield ++ [h.closing.1])

end Header

/-- What stands in a list of declarations, and the part of it that may be a branch or a loop's body. -/
inductive Rank where
  | declaration
  | statement

mutual
/-- A derivation of a declaration or a statement. -/
inductive Form : Rank → Type where
  | function (word : Word .funWord) (header : Header) (opening : Word .leftBrace) (body : Forms)
      (closing : Word .rightBrace) : Form .declaration
  | var (form : VarForm) : Form .declaration
  | statement (form : Form .statement) : Form .declaration
  | expression (value : Phrase .assignment) (semicolon : Word .semicolon) : Form .statement
  | for (word : Word .forWord) (clauses : ForClauses) (body : Form .statement) : Form .statement
  | if (word : Word .ifWord) (condition : Condition) (yes : Form .statement) : Form .statement
  | ifElse (word : Word .ifWord) (condition : Condition) (yes : Form .statement) (other : Word .elseWord)
      (no : Form .statement) : Form .statement
  | print (word : Word .printWord) (value : Phrase .assignment) (semicolon : Word .semicolon) : Form .statement
  | return (word : Word .returnWord) (value : Optional) (semicolon : Word .semicolon) : Form .statement
  | while (word : Word .whileWord) (condition : Condition) (body : Form .statement) : Form .statement
  | block (opening : Word .leftBrace) (body : Forms) (closing : Word .rightBrace) : Form .statement

/-- Any number of declarations. -/
inductive Forms : Type where
  | nil
  | cons (first : Form .declaration) (rest : Forms)
end

mutual
def Form.yield {r : Rank} : Form r → List Token
  | .function word header opening body closing =>
    word.1 :: (header.yield ++ opening.1 :: (body.yield ++ [closing.1]))
  | .var form => form.yield
  | .statement form => form.yield
  | .expression value semicolon => value.yield ++ [semicolon.1]
  | .for word clauses body => word.1 :: (clauses.yield ++ body.yield)
  | .if word condition yes => word.1 :: (condition.yield ++ yes.yield)
  | .ifElse word condition yes other no => word.1 :: (condition.yield ++ (yes.yield ++ other.1 :: no.yield))
  | .print word value semicolon => word.1 :: (value.yield ++ [semicolon.1])
  | .return word value semicolon => word.1 :: (value.yield ++ [semicolon.1])
  | .while word condition body => word.1 :: (condition.yield ++ body.yield)
  | .block opening body closing => opening.1 :: (body.yield ++ [closing.1])

def Forms.yield : Forms → List Token
  | .nil => []
  | .cons first rest => first.yield ++ rest.yield
end

/-- What a `for` statement stands for: a block of the initializer and a `while`, whose body is a block of the statement
and the step.  A missing test is true, and no block is made for an initializer or a step that is missing. -/
def loopOf : Option Stmt → Option Expr → Option Expr → Stmt → Stmt
  | none, test, none, body => .while (test.getD (.literal (.bool true))) body
  | none, test, some step, body => .while (test.getD (.literal (.bool true))) (.block [body, .expression step])
  | some start, test, none, body => .block [start, .while (test.getD (.literal (.bool true))) body]
  | some start, test, some step, body =>
    .block [start, .while (test.getD (.literal (.bool true))) (.block [body, .expression step])]

mutual
/-- The statement of a derivation whose nodes are numbered from `k`, and the number behind the last. -/
def Form.build {r : Rank} : Form r → Nat → Stmt × Nat
  | .function _ header _ body _, k =>
    let (ss, k) := body.build k
    (.function header.name.1 header.names ss, k)
  | .var form, k => form.build k
  | .statement form, k => form.build k
  | .expression value _, k =>
    let (e, k) := value.build k
    (.expression e, k)
  | .for _ clauses body, k =>
    let (start, k) := clauses.start.build k
    let (test, k) := clauses.test.build k
    let (step, k) := clauses.step.build k
    let (s, k) := body.build k
    (loopOf start test step s, k)
  | .if _ condition yes, k =>
    let (e, k) := condition.test.build k
    let (s, k) := yes.build k
    (.conditional e s none, k)
  | .ifElse _ condition yes _ no, k =>
    let (e, k) := condition.test.build k
    let (s, k) := yes.build k
    let (s', k) := no.build k
    (.conditional e s (some s'), k)
  | .print _ value _, k =>
    let (e, k) := value.build k
    (.print e, k)
  | .return word value _, k =>
    let (e, k) := value.build k
    (.return word.1 e, k)
  | .while _ condition body, k =>
    let (e, k) := condition.test.build k
    let (s, k) := body.build k
    (.while e s, k)
  | .block _ body _, k =>
    let (ss, k) := body.build k
    (.block ss, k)

def Forms.build : Forms → Nat → List Stmt × Nat
  | .nil, k => ([], k)
  | .cons first rest, k =>
    let (s, k) := first.build k
    let (ss, k) := rest.build k
    (s :: ss, k)
end

mutual
/-- No parameter list and no argument list is longer than a call can have. -/
def Form.Limited {r : Rank} : Form r → Prop
  | .function _ header _ body _ => header.names.length ≤ maxArity ∧ body.Limited
  | .var form => form.Limited
  | .statement form => form.Limited
  | .expression value _ => value.Limited
  | .for _ clauses body => clauses.Limited ∧ body.Limited
  | .if _ condition yes => condition.test.Limited ∧ yes.Limited
  | .ifElse _ condition yes _ no => condition.test.Limited ∧ yes.Limited ∧ no.Limited
  | .print _ value _ => value.Limited
  | .return _ value _ => value.Limited
  | .while _ condition body => condition.test.Limited ∧ body.Limited
  | .block _ body _ => body.Limited

def Forms.Limited : Forms → Prop
  | .nil => True
  | .cons first rest => first.Limited ∧ rest.Limited
end

/-- Whether the last token of the derivation ends an `if` that has no `else` yet, so that one could follow. -/
def Form.isOpen {r : Rank} : Form r → Bool
  | .statement form => form.isOpen
  | .for _ _ body => body.isOpen
  | .if _ _ _ => true
  | .ifElse _ _ _ _ no => no.isOpen
  | .while _ _ body => body.isOpen
  | _ => false

mutual
/-- Every `else` belongs to the nearest `if` that is open where it stands. -/
def Form.ElseNearest {r : Rank} : Form r → Prop
  | .function _ _ _ body _ => body.ElseNearest
  | .var _ => True
  | .statement form => form.ElseNearest
  | .expression _ _ => True
  | .for _ _ body => body.ElseNearest
  | .if _ _ yes => yes.ElseNearest
  | .ifElse _ _ yes _ no => yes.isOpen = false ∧ yes.ElseNearest ∧ no.ElseNearest
  | .print _ _ _ => True
  | .return _ _ _ => True
  | .while _ _ body => body.ElseNearest
  | .block _ body _ => body.ElseNearest

def Forms.ElseNearest : Forms → Prop
  | .nil => True
  | .cons first rest => first.ElseNearest ∧ rest.ElseNearest
end

end Scriptlet.Grammar
