import Mathlib
import Scriptlet.Binding
import Scriptlet.Tree.Occurrence

/-!
# Static faults

Two rules of the language that a program can break without being run: a `return` belongs to a function, and the
initializer of a local variable does not read the variable.  The nodes that the rules are about, with what encloses
each (`programChecks`), tell which of them break a rule (`Check.fault?`), and the walk over a program reports these and
no other, in order (`resolve_faults`).
-/
namespace Scriptlet

/-! ## The rules -/

/-- What a node can be enclosed by, as far as the rules look. -/
inductive Enclosure where
  | block
  | function
  /-- The initializer of the variable with this name. -/
  | initializer (name : Token)

/-- The part of a program that opens a local scope. -/
def Enclosure.isLocal : Enclosure → Bool
  | block | function => true
  | initializer _ => false

def Enclosure.isFunction : Enclosure → Bool
  | function => true
  | block | initializer _ => false

/-- A node with what encloses it, from the inside out. -/
inductive Check where
  | return (around : List Enclosure) (keyword : Token)
  | read (around : List Enclosure) (name : Token)

/-- Whether one of the enclosures is the initializer of a local variable of the name: of a variable statement that is
itself inside a block or a function. -/
def inOwnInitializer (name : String) : List Enclosure → Bool
  | [] => false
  | .initializer x :: outer => (x.lexeme = name && outer.any Enclosure.isLocal) || inOwnInitializer name outer
  | .block :: outer => inOwnInitializer name outer
  | .function :: outer => inOwnInitializer name outer

/-- The text that a fault names: the lexeme of the token, and none where the text ends. -/
def namedText (t : Token) : Option String := if t.kind ≠ .eof then some t.lexeme else none

/-- The fault of a node that breaks its rule: on the line of the node's token, and with its text. -/
def Check.fault? : Check → Option Fault
  | .return around keyword =>
    if around.any Enclosure.isFunction then none
    else some (.resolve ⟨keyword.line, namedText keyword⟩ .topLevelReturn)
  | .read around name =>
    if inOwnInitializer name.lexeme around then some (.resolve ⟨name.line, namedText name⟩ .ownInitializer) else none

/-! ## The nodes of a program -/

/-- The reads among the occurrences, all enclosed alike. -/
def readsIn (around : List Enclosure) (os : List Occurrence) : List Check :=
  (os.filter fun o => !o.assigns).map fun o => .read around o.name

mutual
/-- The checked nodes of a statement, part by part in the order of the tree. -/
def Stmt.checks (around : List Enclosure) : Stmt → List Check
  | .block body => Stmt.checksAll (.block :: around) body
  | .expression value => readsIn around value.occurrences
  | .function _ _ body => Stmt.checksAll (.function :: around) body
  | .conditional test yes no => readsIn around test.occurrences ++ yes.checks around ++
      match no with
      | none => []
      | some s => s.checks around
  | .print value => readsIn around value.occurrences
  | .return keyword value => .return around keyword :: readsIn around (optionalOccurrences value)
  | .var name initializer => readsIn (.initializer name :: around) (optionalOccurrences initializer)
  | .while test body => readsIn around test.occurrences ++ body.checks around

def Stmt.checksAll (around : List Enclosure) : List Stmt → List Check
  | [] => []
  | s :: ss => s.checks around ++ Stmt.checksAll around ss
end

def programChecks (program : List Stmt) : List Check := Stmt.checksAll [] program

/-! ## The walk over an expression -/

@[simp] theorem Findings.append_faults (f g : Findings) : (f ++ g).faults = f.faults ++ g.faults := rfl

@[simp] theorem Findings.none_faults : Findings.none.faults = [] := rfl

theorem site_eq (t : Token) : t.site = ⟨t.line, namedText t⟩ := by
  unfold Token.site namedText
  by_cases h : t.kind = .eof <;> simp [h]

@[simp] theorem Findings.fault_faults (t : Token) (cause : Cause) :
    (Findings.fault t cause).faults = [.resolve ⟨t.line, namedText t⟩ cause] := by
  rw [← site_eq]
  rfl

@[simp] theorem Findings.bound_faults (scopes : List Scope) (id : Nat) (name : Token) :
    (Findings.bound scopes id name).faults = [] := by
  unfold Findings.bound
  split <;> rfl

/-- The fault of an occurrence, by the scopes of the walk. -/
def Occurrence.fault? (scopes : List Scope) (o : Occurrence) : Option Fault :=
  if o.assigns then none
  else if Scope.initializing scopes o.name.lexeme then
    some (.resolve ⟨o.name.line, namedText o.name⟩ .ownInitializer)
  else none

theorem variable_faults (scopes : List Scope) (id : Nat) (name : Token) :
    ((Expr.variable id name).findings scopes).faults =
      [(⟨id, name, false⟩ : Occurrence)].filterMap (Occurrence.fault? scopes) := by
  cases h : Scope.initializing scopes name.lexeme <;> simp [Expr.findings, Occurrence.fault?, h]

mutual
theorem Expr.findings_faults (scopes : List Scope) :
    ∀ e : Expr, (e.findings scopes).faults = e.occurrences.filterMap (Occurrence.fault? scopes)
  | .literal _ => rfl
  | .variable id name => variable_faults scopes id name
  | .assign id name value => by
    simp [Expr.findings, Expr.occurrences, Expr.findings_faults scopes value, Occurrence.fault?]
  | .group inner => Expr.findings_faults scopes inner
  | .unary _ right => Expr.findings_faults scopes right
  | .binary left _ right => by
    simp [Expr.findings, Expr.occurrences, Expr.findings_faults scopes left, Expr.findings_faults scopes right]
  | .logical left _ right => by
    simp [Expr.findings, Expr.occurrences, Expr.findings_faults scopes left, Expr.findings_faults scopes right]
  | .call callee _ arguments => by
    simp [Expr.findings, Expr.occurrences, Expr.findings_faults scopes callee, Expr.findingsAll_faults scopes arguments]

theorem Expr.findingsAll_faults (scopes : List Scope) :
    ∀ es : List Expr, (Expr.findingsAll scopes es).faults =
      (Expr.occurrencesAll es).filterMap (Occurrence.fault? scopes)
  | [] => rfl
  | e :: es => by
    simp [Expr.findingsAll, Expr.occurrencesAll, Expr.findings_faults scopes e, Expr.findingsAll_faults scopes es]
end

theorem optionalFindings_faults (scopes : List Scope) (o : Option Expr) :
    (optionalFindings scopes o).faults = (optionalOccurrences o).filterMap (Occurrence.fault? scopes) := by
  cases o with
  | none => rfl
  | some e => exact e.findings_faults scopes

/-- Where the walk is at the initializer of a name exactly if the enclosures are, it finds the faults of the reads. -/
theorem faults_readsIn {around : List Enclosure} {scopes : List Scope}
    (h : ∀ name, Scope.initializing scopes name = inOwnInitializer name around) (os : List Occurrence) :
    os.filterMap (Occurrence.fault? scopes) = (readsIn around os).filterMap Check.fault? := by
  induction os with
  | nil => rfl
  | cons o os ih =>
    cases ha : o.assigns <;>
      simp_all [readsIn, List.filterMap_cons, Occurrence.fault?, Check.fault?]

/-! ## The walk over the statements -/

/-- Every name of the innermost scope has its value: no initializer is being read. -/
def Scope.Ready (scopes : List Scope) : Prop := ∀ scope ∈ scopes.head?, ∀ p ∈ scope, p.2 = true

theorem Scope.Ready.not_initializing {scopes : List Scope} (h : Scope.Ready scopes) (name : String) :
    Scope.initializing scopes name = false := by
  rw [Scope.initializing, decide_eq_false_iff_not, Option.bind_eq_some_iff]
  rintro ⟨scope, hs, hl⟩
  obtain ⟨l, r, rfl, -⟩ := List.lookup_eq_some_iff.1 hl
  cases h _ hs (name, false) (by simp)

theorem Scope.Ready.declare {scopes : List Scope} (h : Scope.Ready scopes) (name : String) :
    Scope.Ready (Scope.declare name true scopes) := by
  cases scopes with
  | nil => exact h
  | cons scope outer =>
    intro s hs p hp
    obtain rfl := Option.some.inj hs
    rcases List.mem_cons.1 hp with rfl | hp
    · rfl
    · exact h scope rfl p hp

/-- At the initializer of a name, in a scope whose other names have their values. -/
theorem Scope.Ready.initializing_declare {scopes : List Scope} (h : Scope.Ready scopes) (x name : String) :
    Scope.initializing (Scope.declare x false scopes) name = (decide (x = name) && !scopes.isEmpty) := by
  cases scopes with
  | nil => simp [Scope.declare, Scope.initializing]
  | cons scope outer =>
    by_cases hx : x = name
    · simp [Scope.declare, Scope.initializing, hx]
    · have hn : ¬ scope.lookup name = some false := of_decide_eq_false (h.not_initializing name)
      have hne : (name == x) = false := beq_eq_false_iff_ne.2 fun he => hx he.symm
      simp [Scope.declare, Scope.initializing, List.lookup_cons, hx, hne, hn]

/-- The walk in front of a statement knows what encloses the statement. -/
structure Knows (around : List Enclosure) (inside : Bool) (scopes : List Scope) : Prop where
  within : inside = around.any Enclosure.isFunction
  nested : (!scopes.isEmpty) = around.any Enclosure.isLocal
  outside : ∀ name, inOwnInitializer name around = false
  ready : Scope.Ready scopes

namespace Knows

variable {around : List Enclosure} {inside : Bool} {scopes : List Scope}

theorem initial : Knows [] false [] := ⟨rfl, rfl, fun _ => rfl, fun _ hs => by cases hs⟩

theorem block (h : Knows around inside scopes) : Knows (.block :: around) inside ([] :: scopes) := by
  refine ⟨h.within, rfl, h.outside, fun s hs p hp => ?_⟩
  obtain rfl := Option.some.inj hs
  cases hp

theorem function (h : Knows around inside scopes) (name : String) (params : List Token) :
    Knows (.function :: around) true (Scope.ofParams params :: Scope.declare name true scopes) := by
  refine ⟨rfl, rfl, h.outside, fun s hs p hp => ?_⟩
  obtain rfl := Option.some.inj hs
  obtain ⟨t, -, rfl⟩ := List.mem_map.1 (List.mem_reverse.1 hp)
  rfl

theorem declare (h : Knows around inside scopes) (name : String) :
    Knows around inside (Scope.declare name true scopes) := by
  refine ⟨h.within, ?_, h.outside, h.ready.declare name⟩
  rw [← h.nested]
  cases scopes <;> rfl

/-- What a statement leaves declared has its value. -/
theorem after : ∀ {scopes : List Scope}, Knows around inside scopes → ∀ s : Stmt, Knows around inside (s.declare scopes)
  | _, h, .block _ => h
  | _, h, .expression _ => h
  | _, h, .function name _ _ => h.declare name.lexeme
  | _, h, .conditional _ yes none => after h yes
  | _, h, .conditional _ yes (some no) => after (after h yes) no
  | _, h, .print _ => h
  | _, h, .return _ _ => h
  | _, h, .var name _ => h.declare name.lexeme
  | _, h, .while _ body => after h body

/-- No expression of a statement is in an initializer, but for the one of a variable statement. -/
theorem optional (h : Knows around inside scopes) (o : Option Expr) :
    (optionalFindings scopes o).faults = (readsIn around (optionalOccurrences o)).filterMap Check.fault? := by
  rw [optionalFindings_faults]
  exact faults_readsIn (fun name => by rw [h.ready.not_initializing, h.outside]) _

theorem expression (h : Knows around inside scopes) (e : Expr) :
    (e.findings scopes).faults = (readsIn around e.occurrences).filterMap Check.fault? := h.optional (some e)

theorem initializer (h : Knows around inside scopes) (name : Token) (o : Option Expr) :
    (optionalFindings (Scope.declare name.lexeme false scopes) o).faults =
      (readsIn (.initializer name :: around) (optionalOccurrences o)).filterMap Check.fault? := by
  rw [optionalFindings_faults]
  refine faults_readsIn (fun x => ?_) _
  rw [h.ready.initializing_declare, h.nested, inOwnInitializer, h.outside, Bool.or_false]

end Knows

mutual
theorem Stmt.findings_faults : ∀ (s : Stmt) {around : List Enclosure} {inside : Bool} {scopes : List Scope},
    Knows around inside scopes → (s.findings inside scopes).faults = (s.checks around).filterMap Check.fault?
  | .block body, _, _, _, h => Stmt.findingsAll_faults body h.block
  | .expression value, _, _, _, h => h.expression value
  | .function name params body, _, _, _, h => Stmt.findingsAll_faults body (h.function name.lexeme params)
  | .conditional test yes none, _, _, _, h => by
    simp [Stmt.findings, Stmt.checks, h.expression test, Stmt.findings_faults yes h]
  | .conditional test yes (some no), _, _, _, h => by
    simp [Stmt.findings, Stmt.checks, h.expression test, Stmt.findings_faults yes h,
      Stmt.findings_faults no (h.after yes)]
  | .print value, _, _, _, h => h.expression value
  | .return keyword value, around, inside, _, h => by
    have hi := h.within
    rw [Stmt.findings, Stmt.checks, Findings.append_faults, h.optional value, List.filterMap_cons]
    cases inside <;> simp [Check.fault?, ← hi]
  | .var name initializer, _, _, _, h => h.initializer name initializer
  | .while test body, _, _, _, h => by
    simp [Stmt.findings, Stmt.checks, h.expression test, Stmt.findings_faults body h]

theorem Stmt.findingsAll_faults : ∀ (ss : List Stmt) {around : List Enclosure} {inside : Bool} {scopes : List Scope},
    Knows around inside scopes →
      (Stmt.findingsAll inside scopes ss).faults = (Stmt.checksAll around ss).filterMap Check.fault?
  | [], _, _, _, _ => rfl
  | s :: ss, _, _, _, h => by
    simp [Stmt.findingsAll, Stmt.checksAll, Stmt.findings_faults s h, Stmt.findingsAll_faults ss (h.after s)]
end

/-- **The walk over a program reports the static faults there are**, one for each node that breaks its rule, in order
and at the token of the node. -/
theorem resolve_faults (program : List Stmt) :
    (resolve program).faults = (programChecks program).filterMap Check.fault? ∧
      Cause.topLevelReturn.message = "Can't return from top-level code." ∧
      Cause.ownInitializer.message = "Can't read local variable in its own initializer." :=
  ⟨Stmt.findingsAll_faults program .initial, rfl, rfl⟩

end Scriptlet
