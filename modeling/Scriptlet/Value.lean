import Scriptlet.Text.Quoted
import Scriptlet.Tree

/-!
# Values

What a program computes with.  Functions are known by an identity: each run of a function statement makes a new one.
-/
namespace Scriptlet

/-- The number of a frame in the store. -/
abbrev FrameId := Nat

/-- A function as it was declared. -/
structure Function where
  name : Token
  params : List Token
  body : List Stmt

namespace Function

def arity (f : Function) : Nat := f.params.length

/-- Name and arity, as the host shows a function. -/
def debug (f : Function) : String :=
  "HydFunction \x7b name: " ++ quoted f.name.lexeme ++ ", arity: " ++ digitsText f.arity ++ " \x7d"

end Function

/-- What the host can compute for a program. -/
inductive Host where
  /-- The time in seconds. -/
  | clock
  /-- The first argument, nil if there is none. -/
  | first
  /-- The last argument, nil if there is none. -/
  | last
  /-- The number of arguments. -/
  | count
  deriving DecidableEq

def Host.name : Host → String
  | clock => "clock"
  | first => "first"
  | last => "last"
  | count => "count"

/-- A function of the host. -/
structure Native where
  host : Host
  arity : Nat
  deriving DecidableEq

namespace Native

def name (f : Native) : String := f.host.name

def display (f : Native) : String := "<native fn " ++ f.name ++ ">"

end Native

/-- The functions of the host that every program finds in its global frame. -/
def natives : List Native := [⟨.clock, 0⟩]

inductive Callable where
  /-- A declared function and the frame it was declared in. -/
  | closure (id : Nat) (function : Function) (frame : FrameId)
  | native (id : Nat) (function : Native)

namespace Callable

/-- The identity. -/
def id : Callable → Nat
  | closure id _ _ => id
  | native id _ => id

def name : Callable → String
  | closure _ f _ => f.name.lexeme
  | native _ f => f.name

def arity : Callable → Nat
  | closure _ f _ => f.arity
  | native _ f => f.arity

def display : Callable → String
  | closure _ f _ => "<fn " ++ f.name.lexeme ++ ">"
  | native _ f => f.display

end Callable

inductive Value where
  | nil
  | bool (value : Bool)
  | number (value : Number)
  | text (value : String)
  | callable (value : Callable)

namespace Value

def ofLiteral : Literal → Value
  | .number x => number x
  | .text s => text s
  | .bool b => bool b
  | .nil => nil

/-- Everything but nil and false. -/
def truthy : Value → Bool
  | nil => false
  | bool b => b
  | _ => true

/-- The equality of the language: functions are equal when they are one. -/
def equals : Value → Value → Bool
  | nil, nil => true
  | bool a, bool b => a = b
  | number x, number y => x = y
  | text s, text t => s = t
  | callable f, callable g => f.id = g.id
  | _, _ => false

/-- As `print` shows it. -/
def display : Value → String
  | nil => "nil"
  | bool true => "true"
  | bool false => "false"
  | number x => x.display
  | text s => s
  | callable f => f.display

/-- As `display`, but a text is quoted. -/
def debug : Value → String
  | text s => quoted s
  | v => v.display

end Value
end Scriptlet
