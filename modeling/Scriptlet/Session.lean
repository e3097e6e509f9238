import Scriptlet.Eval
import Scriptlet.Token.Scan
import Scriptlet.Tree.Parse

/-!
# Sessions

Texts are analyzed and run one after the other on one machine.  A text with a static fault runs nothing; every stage
looks at it nevertheless, so that all its faults are known.
-/
namespace Scriptlet

/-- A text as far as it can be understood without running it. -/
structure Analysis where
  statements : List Stmt
  /-- Entries of the binding table. -/
  entries : List (Nat × Nat)
  /-- Lexical faults, then syntax faults, then those of binding. -/
  faults : List Fault
  /-- The number that the next node would get. -/
  fresh : Nat

/-- Reads a text; its nodes are numbered from `fresh`. -/
def readSource (fresh : Nat) (source : String) : Parsed :=
  let items := scan source
  let parsed := parse fresh (tokensOf items)
  { parsed with faults := faultsOf items ++ parsed.faults }

/-- Reads a text and binds what could be read. -/
def analyze (fresh : Nat) (source : String) : Analysis :=
  let parsed := readSource fresh source
  let findings := resolve parsed.statements
  { statements := parsed.statements
    entries := findings.entries
    faults := parsed.faults ++ findings.faults
    fresh := parsed.fresh }

/-- How a text fared. -/
inductive Outcome where
  | completed
  | staticFaults (faults : List Fault)
  | runtimeFault (fault : Fault)
  /-- The bound on calls and loops was reached. -/
  | unfinished

namespace Outcome

def exitCode : Outcome → Nat
  | completed => 0
  | staticFaults _ => 65
  | runtimeFault _ => 70
  | unfinished => 70

def faults : Outcome → List Fault
  | completed => []
  | staticFaults fs => fs
  | runtimeFault f => [f]
  | unfinished => []

end Outcome

/-- The outcome of a run that ended so.  A `return` that no call waits for ends it quietly. -/
def Signal.outcome {α : Type} : Signal α → Outcome
  | value _ => .completed
  | returned _ => .completed
  | failed f => .runtimeFault f
  | spent => .unfinished

/-- Runs statements with at most `bound` calls inside each other and rounds of a loop, and flushes the sink, whose
failure counts before any other. -/
def interpret (bound : Nat) (statements : List Stmt) (m : Machine) : Outcome × Machine :=
  let (signal, m) := Stmt.execAll (invoke bound) bound statements m
  match m.sink.flush with
  | .ok _ => (signal.outcome, m)
  | .error f => (.runtimeFault f, m)

/-- How a run ends, and on which machine. -/
theorem interpret_eq (bound : Nat) (ss : List Stmt) (m : Machine) : interpret bound ss m =
    (if (Stmt.execAll (invoke bound) bound ss m).2.sink.flushable then
      (Stmt.execAll (invoke bound) bound ss m).1.outcome
      else .runtimeFault (.output .flushFailed), (Stmt.execAll (invoke bound) bound ss m).2) := by
  unfold interpret Sink.flush
  cases hf : (Stmt.execAll (invoke bound) bound ss m).2.sink.flushable <;> simp [hf]

/-- A machine and the number of the next node. -/
structure Session where
  machine : Machine
  fresh : Nat

namespace Session

def start (sink : Sink) (clock : Nat → Number) : Session := ⟨.start sink clock, 0⟩

/-- Runs a text. -/
def run (bound : Nat) (source : String) (s : Session) : Outcome × Session :=
  let a := analyze s.fresh source
  if a.faults.isEmpty then
    let m := { s.machine with bindings := s.machine.bindings.add a.entries }
    let (outcome, m) := interpret bound a.statements m
    (outcome, ⟨m, a.fresh⟩)
  else (.staticFaults a.faults, { s with fresh := a.fresh })

/-- Runs a text without binding it, so that every name is global. -/
def runUnbound (bound : Nat) (source : String) (s : Session) : Outcome × Session :=
  let parsed := readSource s.fresh source
  if parsed.faults.isEmpty then
    let (outcome, m) := interpret bound parsed.statements s.machine
    (outcome, ⟨m, parsed.fresh⟩)
  else (.staticFaults parsed.faults, { s with fresh := parsed.fresh })

end Session
end Scriptlet
