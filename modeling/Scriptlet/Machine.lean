import Scriptlet.Binding
import Scriptlet.Sink
import Scriptlet.Store

/-!
# The machine

The state of a run, and computations on it.  A computation ends in one of four ways, and leaves the machine as it then
is: with a value, with a `return` that has not met its call yet, with a fault, or at the bound it was given.
-/
namespace Scriptlet

structure Machine where
  store : Store
  /-- The frame in which names are declared now. -/
  here : FrameId
  bindings : Bindings
  sink : Sink
  /-- The readings of the clock, first to last. -/
  clock : Nat → Number
  /-- How often the clock has been read. -/
  ticks : Nat
  /-- The identity of the next function. -/
  fresh : Nat

namespace Machine

/-- The frame that no other encloses. -/
def globals : FrameId := 0

def define (m : Machine) (f : FrameId) (name : String) (value : Value) : Machine :=
  { m with store := m.store.define f name value }

/-- The frame that holds the variable of an occurrence: the one its distance gives, or else the global frame. -/
def holder? (m : Machine) (id : Nat) (name : String) : Option FrameId :=
  match m.bindings[id]? with
  | some distance => m.store.holderAt? m.here distance name
  | none => m.store.nearest? globals name

/-- A function of the host with a new identity. -/
def makeNative (m : Machine) (f : Native) : Callable × Machine :=
  (.native m.fresh f, { m with fresh := m.fresh + 1 })

/-- A function declared in a frame, with a new identity. -/
def makeClosure (m : Machine) (f : Function) (frame : FrameId) : Callable × Machine :=
  (.closure m.fresh f frame, { m with fresh := m.fresh + 1 })

/-- A function declared in a new frame that nothing encloses and that holds the given values. -/
def closeOver (m : Machine) (f : Function) (values : List (String × Value)) : Callable × Machine :=
  let (frame, store) := m.store.add none
  let store := values.foldl (fun s (name, value) => s.define frame name value) store
  { m with store }.makeClosure f frame

/-- Puts a function of the host into the global frame. -/
def install (m : Machine) (f : Native) : Machine :=
  let (callable, m) := m.makeNative f
  m.define globals f.name (.callable callable)

/-- A machine that has run nothing: the host's functions are in the global frame. -/
def start (sink : Sink) (clock : Nat → Number) : Machine :=
  let bare : Machine :=
    { store := (Store.empty.add none).2, here := globals, bindings := {}, sink, clock, ticks := 0, fresh := 0 }
  natives.foldl install bare

end Machine

/-- How a computation ends. -/
inductive Signal (α : Type) where
  | value (a : α)
  /-- A `return` on its way to the call it ends. -/
  | returned (v : Value)
  | failed (f : Fault)
  /-- The bound on calls and loops was reached. -/
  | spent

/-- A computation on the machine. -/
def Run (α : Type) : Type := Machine → Signal α × Machine

namespace Run

instance : Monad Run where
  pure a := fun m => (.value a, m)
  bind r f := fun m =>
    match r m with
    | (.value a, m) => f a m
    | (.returned v, m) => (.returned v, m)
    | (.failed e, m) => (.failed e, m)
    | (.spent, m) => (.spent, m)

def fail {α : Type} (f : Fault) : Run α := fun m => (.failed f, m)

/-- A fault at a token. -/
def failAt {α : Type} (t : Token) (cause : Cause) : Run α := fail (.run t.line cause)

/-- Leaves the function that is running. -/
def leave {α : Type} (v : Value) : Run α := fun m => (.returned v, m)

def spent {α : Type} : Run α := fun m => (.spent, m)

def ofExcept {α : Type} : Except Fault α → Run α
  | .ok a => pure a
  | .error f => fail f

/-- Runs with another frame as the current one, which is restored however the run ends. -/
def within {α : Type} (frame : FrameId) (r : Run α) : Run α := fun m =>
  let outer := m.here
  let (signal, m) := r { m with here := frame }
  (signal, { m with here := outer })

/-- The value of a function's body: what it returns, or nil. -/
def result (body : Run Unit) : Run Value := fun m =>
  match body m with
  | (.value _, m) => (.value .nil, m)
  | (.returned v, m) => (.value v, m)
  | (.failed f, m) => (.failed f, m)
  | (.spent, m) => (.spent, m)

/-- A new frame, empty, inside the given one. -/
def newFrame (outer : FrameId) : Run FrameId := fun m =>
  let (f, store) := m.store.add (some outer)
  (.value f, { m with store })

/-- A new frame inside the current one. -/
def newFrameHere : Run FrameId := fun m => newFrame m.here m

def defineIn (f : FrameId) (name : String) (value : Value) : Run Unit := fun m => (.value (), m.define f name value)

/-- Declares a name in the current frame. -/
def define (name : String) (value : Value) : Run Unit := fun m => defineIn m.here name value m

/-- A function declared in the current frame, with a new identity. -/
def makeClosure (f : Function) : Run Value := fun m =>
  let (callable, m) := m.makeClosure f m.here
  (.value (.callable callable), m)

def lookUp (id : Nat) (name : Token) : Run Value := fun m =>
  ofExcept (m.store.read (m.holder? id name.lexeme) name) m

/-- The holder is found before the store is changed, so that the old store is not kept beside the new one. -/
def assign (id : Nat) (name : Token) (value : Value) : Run Unit := fun m =>
  match m.holder? id name.lexeme with
  | some f => (.value (), m.define f name.lexeme value)
  | none => (.failed (Store.undefined name), m)

def print (text : String) : Run Unit := fun m =>
  let (written, sink) := m.sink.write (text ++ "\n")
  ofExcept written { m with sink }

def readClock : Run Number := fun m => (.value (m.clock m.ticks), { m with ticks := m.ticks + 1 })

end Run
end Scriptlet
