import Mathlib
import Scriptlet.Session
import Scriptlet.Proofs.Numbering

/-!
# Where variables occur

Every occurrence of a variable in a program, with the local scopes around it (`Stmt.places`).  The entry that the walk
over the program makes for an occurrence is the number of scopes inside the innermost one that declares the name before
it, and a walk without a fault has met no variable read in its own initializer (`resolve_describes`).
-/
namespace Scriptlet

/-! ## Scopes and places -/

/-- What opens a local scope. -/
inductive LocalScope where
  | block (body : List Stmt)
  | function (function : Function)

namespace LocalScope

def params : LocalScope → List Token
  | block _ => []
  | function f => f.params

def body : LocalScope → List Stmt
  | block body => body
  | function f => f.body

/-- The names that the parameters and the first `n` statements declare. -/
def names (scope : LocalScope) (n : Nat) : List String :=
  scope.params.map Token.lexeme ++ (scope.body.take n).filterMap Stmt.declared?

end LocalScope

/-- The local scopes around a place, innermost first, each with the index of its statement that the place is in. -/
abbrev Surroundings := List (LocalScope × Nat)

/-- The names that the scope declares textually before the place.  A declaration comes before its own initializer or
body. -/
def namesBefore (p : LocalScope × Nat) : List String := p.1.names (p.2 + 1)

/-- How many scopes lie inside the innermost one that declares the name before the place. -/
def Surroundings.distance? (around : Surroundings) (name : String) : Option Nat :=
  around.findIdx? fun p => name ∈ namesBefore p

/-- Past the statement that the innermost scope has come to. -/
def Surroundings.next : Surroundings → Surroundings
  | [] => []
  | (scope, i) :: outer => (scope, i + 1) :: outer

/-- When the statement has been run: a declaration is passed, with its name. -/
def Surroundings.after (around : Surroundings) (s : Stmt) : Surroundings :=
  match s.declared? with
  | none => around
  | some _ => around.next

/-- Whether the place is in the initializer of a variable of this name that the innermost scope declares. -/
def Surroundings.OwnInitializer (around : Surroundings) (name : String) : Prop :=
  ∃ p ∈ around.head?, ∃ x e, p.1.body[p.2]? = some (.var x e) ∧ x.lexeme = name

/-- The name of the variable that the statement declares. -/
def Stmt.variable? : Stmt → Option String
  | .var name _ => some name.lexeme
  | _ => none

theorem Surroundings.ownInitializer_iff (around : Surroundings) (name : String) :
    ((around.head?.bind fun p => p.1.body[p.2]?).bind Stmt.variable?) = some name ↔ around.OwnInitializer name := by
  simp only [Option.bind_eq_some_iff, OwnInitializer]
  constructor
  · rintro ⟨s, ⟨p, hp, hs⟩, hn⟩
    cases s with
    | var x e => exact ⟨p, hp, x, e, hs, Option.some.inj hn⟩
    | _ => cases hn
  · rintro ⟨p, hp, x, e, hs, rfl⟩
    exact ⟨_, ⟨p, hp, hs⟩, rfl⟩

instance (around : Surroundings) (name : String) : Decidable (around.OwnInitializer name) :=
  decidable_of_iff _ (around.ownInitializer_iff name)

/-- An occurrence and the scopes around it. -/
abbrev ScopedOccurrence := Surroundings × Occurrence

/-- The places of the occurrences, all in the same scopes. -/
def placesIn (around : Surroundings) (os : List Occurrence) : List ScopedOccurrence := os.map fun o => (around, o)

theorem placesIn_append (around : Surroundings) (os os' : List Occurrence) :
    placesIn around (os ++ os') = placesIn around os ++ placesIn around os' := List.map_append

/-- A list of statements stands at the top level or in a local scope, inside others. -/
abbrev Ground := Option (LocalScope × Surroundings)

/-- What is around the statement with the index. -/
def Ground.around : Ground → Nat → Surroundings
  | none, _ => []
  | some (scope, outer), i => (scope, i) :: outer

mutual
/-- The occurrences in a statement. -/
def Stmt.places (around : Surroundings) : Stmt → List ScopedOccurrence
  | .block body => Stmt.placesAll (some (.block body, around)) 0 body
  | .expression value => placesIn around value.occurrences
  | .function name params body => Stmt.placesAll (some (.function ⟨name, params, body⟩, around)) 0 body
  | .conditional test yes no => placesIn around test.occurrences ++ yes.places around ++
      match no with
      | none => []
      | some s => s.places around
  | .print value => placesIn around value.occurrences
  | .return _ value => placesIn around (optionalOccurrences value)
  | .var _ initializer => placesIn around (optionalOccurrences initializer)
  | .while test body => placesIn around test.occurrences ++ body.places around

/-- The occurrences in the statements from the index on. -/
def Stmt.placesAll (ground : Ground) : Nat → List Stmt → List ScopedOccurrence
  | _, [] => []
  | i, s :: ss => s.places (ground.around i) ++ Stmt.placesAll ground (i + 1) ss
end

theorem Stmt.places_conditional (around : Surroundings) (test : Expr) (yes : Stmt) (no : Option Stmt) :
    (Stmt.conditional test yes no).places around =
      placesIn around test.occurrences ++ yes.places around ++ no.elim [] (Stmt.places around) := by
  cases no <;> simp [Stmt.places]

/-- The occurrences in a program. -/
def programPlaces (program : List Stmt) : List ScopedOccurrence := Stmt.placesAll none 0 program

/-! ## Names of a scope -/

theorem LocalScope.names_zero (scope : LocalScope) : scope.names 0 = scope.params.map Token.lexeme := by
  simp [names]

theorem LocalScope.names_succ {scope : LocalScope} {i : Nat} {s : Stmt} (h : scope.body[i]? = some s) :
    scope.names (i + 1) = scope.names i ++ s.declared?.toList := by
  obtain ⟨hi, rfl⟩ := List.getElem?_eq_some_iff.1 h
  unfold names
  rw [List.take_succ_eq_append_getElem hi, List.filterMap_append, List.append_assoc]
  cases hd : scope.body[i].declared? <;> simp [hd]

/-- The statement stands here: it is the statement of the innermost scope, or part of it and neither declares. -/
def Stands (around : Surroundings) (s : Stmt) : Prop :=
  ∀ p ∈ around.head?, ∃ s', p.1.body[p.2]? = some s' ∧ (s' = s ∨ s'.declared? = none ∧ s.declared? = none)

namespace Stands

variable {around : Surroundings} {s : Stmt}

theorem namesBefore {p : LocalScope × Nat} (h : Stands around s) (hp : p ∈ around.head?) :
    Scriptlet.namesBefore p = p.1.names p.2 ++ s.declared?.toList := by
  obtain ⟨s', hs', rfl | ⟨hn, hn'⟩⟩ := h p hp
  · exact LocalScope.names_succ hs'
  · rw [hn', ← hn]
    exact LocalScope.names_succ hs'

/-- A part that does not declare, of a statement that does not. -/
theorem part {t : Stmt} (h : Stands around s) (hs : s.declared? = none) (ht : t.declared? = none) :
    Stands around t := by
  intro p hp
  obtain ⟨s', hs', rfl | ⟨hn, -⟩⟩ := h p hp
  · exact ⟨s', hs', .inr ⟨hs, ht⟩⟩
  · exact ⟨s', hs', .inr ⟨hn, ht⟩⟩

theorem not_ownInitializer (h : Stands around s) (hs : s.declared? = none) (name : String) :
    ¬ around.OwnInitializer name := by
  rintro ⟨p, hp, x, e, hb, -⟩
  obtain ⟨s', hs', rfl | ⟨hn, -⟩⟩ := h p hp
  · rw [hb] at hs'
    cases hs'
    cases hs
  · rw [hb] at hs'
    cases hs'
    cases hn

end Stands

/-- The statements stand on the ground from the index on. -/
def Ground.Has (ground : Ground) (i : Nat) (ss : List Stmt) : Prop := ∀ g ∈ ground, g.1.body.drop i = ss

namespace Ground.Has

variable {ground : Ground} {i : Nat} {s : Stmt} {ss : List Stmt}

theorem stands (h : ground.Has i (s :: ss)) : Stands (ground.around i) s := by
  intro p hp
  cases ground with
  | none => cases hp
  | some g =>
    obtain rfl := Option.some.inj hp
    refine ⟨s, ?_, .inl rfl⟩
    have := h g rfl
    rw [← List.head?_drop, this]
    rfl

theorem tail (h : ground.Has i (s :: ss)) : ground.Has (i + 1) ss := by
  intro g hg
  rw [← List.tail_drop, h g hg]
  rfl

end Ground.Has

/-! ## The walk -/

/-- The scopes of the walk declare what the scopes around a place declare before it. -/
def Tracks (around : Surroundings) (scopes : List Scope) : Prop :=
  List.Forall₂ (fun p scope => ∀ name, Scope.declares scope name = true ↔ name ∈ namesBefore p) around scopes

/-- The scopes of the walk in front of the statement: the innermost one has not met it yet. -/
def TracksUpTo : Surroundings → List Scope → Prop
  | [], scopes => scopes = []
  | p :: outer, scopes => ∃ scope rest, scopes = scope :: rest ∧
      (∀ name, Scope.declares scope name = true ↔ name ∈ p.1.names p.2) ∧ Tracks outer rest

theorem Tracks.distance? {around : Surroundings} {scopes : List Scope} (h : Tracks around scopes) (name : String) :
    Scope.distance? scopes name = around.distance? name := by
  unfold Scope.distance? Surroundings.distance?
  induction h with
  | nil => rfl
  | cons hp _ ih =>
    rw [List.findIdx?_cons, List.findIdx?_cons, ih, Bool.eq_iff_iff.2 ((hp name).trans decide_eq_true_iff.symm)]

theorem declares_cons (x : String) (b : Bool) (scope : Scope) (name : String) :
    Scope.declares ((x, b) :: scope) name = true ↔ name = x ∨ Scope.declares scope name = true := by
  simp only [Scope.declares, List.any_cons, Bool.or_eq_true, decide_eq_true_eq]
  rw [eq_comm (a := x)]

theorem declares_ofParams (params : List Token) (name : String) :
    Scope.declares (Scope.ofParams params) name = true ↔ name ∈ params.map Token.lexeme := by
  simp [Scope.declares, Scope.ofParams]

namespace TracksUpTo

variable {around : Surroundings} {scopes : List Scope} {s : Stmt}

/-- Where the statement does not declare, the walk has all that comes before its parts. -/
theorem tracks (h : TracksUpTo around scopes) (hs : Stands around s) (hd : s.declared? = none) :
    Tracks around scopes := by
  cases around with
  | nil => exact h ▸ .nil
  | cons p outer =>
    obtain ⟨scope, rest, rfl, hp, ho⟩ := h
    refine .cons (fun name => ?_) ho
    rw [hp, hs.namesBefore rfl, hd]
    simp

/-- A declaration is tracked once the walk has met its name. -/
theorem tracks_declare (h : TracksUpTo around scopes) (hs : Stands around s) {x : String} (hd : s.declared? = some x)
    (ready : Bool) : Tracks around (Scope.declare x ready scopes) := by
  cases around with
  | nil => exact h ▸ .nil
  | cons p outer =>
    obtain ⟨scope, rest, rfl, hp, ho⟩ := h
    refine .cons (fun name => ?_) ho
    rw [declares_cons, hp, hs.namesBefore rfl, hd]
    simp [or_comm]

end TracksUpTo

/-- In front of a statement of a new scope, where the walk has met the names it opens with. -/
theorem Tracks.inside {around : Surroundings} {scopes : List Scope} (h : Tracks around scopes) {scope : LocalScope}
    {opened : Scope} (ho : ∀ name, Scope.declares opened name = true ↔ name ∈ scope.params.map Token.lexeme) :
    TracksUpTo (Ground.around (some (scope, around)) 0) (opened :: scopes) :=
  ⟨opened, scopes, rfl, fun name => by rw [ho, LocalScope.names_zero], h⟩

/-- What a proper statement leaves declared. -/
theorem Stmt.declare_of_proper : ∀ {s : Stmt}, s.Proper → ∀ scopes : List Scope,
    s.declare scopes = (s.declared?.elim scopes fun x => Scope.declare x true scopes)
  | .block _, _, _ => rfl
  | .expression _, _, _ => rfl
  | .function _ _ _, _, _ => rfl
  | .conditional _ yes none, h, scopes => by
    have hy := declare_of_proper h.2.1 scopes
    rw [h.1] at hy
    exact hy
  | .conditional _ yes (some no), h, scopes => by
    have hy := declare_of_proper h.2.1 scopes
    have hn := declare_of_proper h.2.2.2 scopes
    rw [h.1] at hy
    rw [h.2.2.1] at hn
    simp only [Stmt.declare, hy, Option.elim_none]
    exact hn
  | .print _, _, _ => rfl
  | .return _ _, _, _ => rfl
  | .var _ _, _, _ => rfl
  | .while _ body, h, scopes => by
    have hb := declare_of_proper h.2 scopes
    rw [h.1] at hb
    exact hb

theorem TracksUpTo.next {ground : Ground} {i : Nat} {s : Stmt} {ss : List Stmt} {scopes : List Scope}
    (h : TracksUpTo (ground.around i) scopes) (hg : ground.Has i (s :: ss)) (hp : s.Proper) :
    TracksUpTo (ground.around (i + 1)) (s.declare scopes) := by
  rw [Stmt.declare_of_proper hp]
  cases ground with
  | none =>
    obtain rfl : scopes = [] := h
    cases s.declared? <;> rfl
  | some g =>
    obtain ⟨scope, rest, rfl, hn, ho⟩ := h
    have hb := hg.stands.namesBefore (p := (g.1, i)) rfl
    cases hd : s.declared? with
    | none =>
      refine ⟨scope, rest, rfl, fun name => ?_, ho⟩
      rw [hn]
      have hb : g.1.names (i + 1) = g.1.names i ++ [] := by rw [hd] at hb; exact hb
      rw [hb, List.append_nil]
    | some x =>
      refine ⟨(x, true) :: scope, rest, rfl, fun name => ?_, ho⟩
      rw [declares_cons, hn]
      have hb : g.1.names (i + 1) = g.1.names i ++ [x] := by rw [hd] at hb; exact hb
      rw [hb, List.mem_append, List.mem_singleton, or_comm]

/-- The entry of an occurrence. -/
def ScopedOccurrence.entry? (p : ScopedOccurrence) : Option (Nat × Nat) :=
  (p.1.distance? p.2.name.lexeme).map (p.2.id, ·)

/-- **What a walk finds over the places**: their entries, and a fault at each variable that is read in its own
initializer. -/
structure Findings.Describes (f : Findings) (places : List ScopedOccurrence) : Prop where
  entries : f.entries = places.filterMap ScopedOccurrence.entry?
  sound : f.faults = [] → ∀ p ∈ places, p.2.assigns = false → ¬ p.1.OwnInitializer p.2.name.lexeme

namespace Findings.Describes

variable {f g : Findings} {ps qs : List ScopedOccurrence}

theorem nil (f : Findings) (h : f.entries = []) : f.Describes [] := ⟨by simp [h], by simp⟩

theorem append (hf : f.Describes ps) (hg : g.Describes qs) : (f ++ g).Describes (ps ++ qs) := by
  refine ⟨?_, fun h p hp => ?_⟩
  · rw [List.filterMap_append, ← hf.entries, ← hg.entries]
    rfl
  · have h : f.faults ++ g.faults = [] := h
    obtain ⟨hf', hg'⟩ := List.append_eq_nil_iff.1 h
    rcases List.mem_append.1 hp with hp | hp
    · exact hf.sound hf' p hp
    · exact hg.sound hg' p hp

end Findings.Describes

section

variable {around : Surroundings} {scopes : List Scope}

theorem bound_entries (ht : Tracks around scopes) (o : Occurrence) :
    (Findings.bound scopes o.id o.name).entries = [(around, o)].filterMap ScopedOccurrence.entry? := by
  unfold Findings.bound
  rw [ht.distance?]
  cases hd : around.distance? o.name.lexeme <;> simp [ScopedOccurrence.entry?, hd, Findings.none]

theorem bound_describes (ht : Tracks around scopes) (o : Occurrence) (h : o.assigns = false →
    ¬ around.OwnInitializer o.name.lexeme) : (Findings.bound scopes o.id o.name).Describes [(around, o)] := by
  refine ⟨bound_entries ht o, fun _ p hp ha => ?_⟩
  obtain rfl := List.mem_singleton.1 hp
  exact h ha

theorem variable_describes (ht : Tracks around scopes)
    (hi : ∀ name, around.OwnInitializer name → Scope.initializing scopes name = true) (id : Nat) (name : Token) :
    ((Expr.variable id name).findings scopes).Describes [(around, ⟨id, name, false⟩)] := by
  rw [Expr.findings]
  by_cases h : around.OwnInitializer name.lexeme
  · rw [if_pos (hi _ h)]
    refine ⟨bound_entries ht ⟨id, name, false⟩, fun hf => ?_⟩
    cases hf
  · have hnil : ((if Scope.initializing scopes name.lexeme then Findings.fault name .ownInitializer else .none) :
        Findings).Describes [] := .nil _ (by split <;> rfl)
    exact hnil.append (bound_describes ht ⟨id, name, false⟩ fun _ => h)

mutual
/-- The walk over an expression, where the walk knows of the initializer it is in. -/
theorem Expr.findings_describes (ht : Tracks around scopes)
    (hi : ∀ name, around.OwnInitializer name → Scope.initializing scopes name = true) :
    ∀ e : Expr, (e.findings scopes).Describes (placesIn around e.occurrences)
  | .literal _ => .nil _ rfl
  | .variable id name => variable_describes ht hi id name
  | .assign id name value => by
    rw [Expr.findings, Expr.occurrences, placesIn_append]
    exact (Expr.findings_describes ht hi value).append (bound_describes ht ⟨id, name, true⟩ (by simp))
  | .group inner => Expr.findings_describes ht hi inner
  | .unary _ right => Expr.findings_describes ht hi right
  | .binary left _ right => by
    rw [Expr.findings, Expr.occurrences, placesIn_append]
    exact (Expr.findings_describes ht hi left).append (Expr.findings_describes ht hi right)
  | .logical left _ right => by
    rw [Expr.findings, Expr.occurrences, placesIn_append]
    exact (Expr.findings_describes ht hi left).append (Expr.findings_describes ht hi right)
  | .call callee _ arguments => by
    rw [Expr.findings, Expr.occurrences, placesIn_append]
    exact (Expr.findings_describes ht hi callee).append (Expr.findingsAll_describes ht hi arguments)

theorem Expr.findingsAll_describes (ht : Tracks around scopes)
    (hi : ∀ name, around.OwnInitializer name → Scope.initializing scopes name = true) :
    ∀ es : List Expr, (Expr.findingsAll scopes es).Describes (placesIn around (Expr.occurrencesAll es))
  | [] => .nil _ rfl
  | e :: es => by
    rw [Expr.findingsAll, Expr.occurrencesAll, placesIn_append]
    exact (Expr.findings_describes ht hi e).append (Expr.findingsAll_describes ht hi es)
end

theorem optionalFindings_describes (ht : Tracks around scopes)
    (hi : ∀ name, around.OwnInitializer name → Scope.initializing scopes name = true) (o : Option Expr) :
    (optionalFindings scopes o).Describes (placesIn around (optionalOccurrences o)) := by
  cases o with
  | none => exact .nil _ rfl
  | some e => exact e.findings_describes ht hi

end

/-- The walk over the expressions of a statement that does not declare. -/
theorem TracksUpTo.expressions {around : Surroundings} {scopes : List Scope} {s : Stmt} (h : TracksUpTo around scopes)
    (hs : Stands around s) (hd : s.declared? = none) (o : Option Expr) :
    (optionalFindings scopes o).Describes (placesIn around (optionalOccurrences o)) :=
  optionalFindings_describes (h.tracks hs hd) (fun name hn => absurd hn (hs.not_ownInitializer hd name)) o

/-- The walk over the initializer of a variable knows the name it is for. -/
theorem TracksUpTo.initializer {around : Surroundings} {scopes : List Scope} {x : Token} {e : Option Expr}
    (h : TracksUpTo around scopes) (hs : Stands around (.var x e)) :
    (optionalFindings (Scope.declare x.lexeme false scopes) e).Describes (placesIn around (optionalOccurrences e)) := by
  refine optionalFindings_describes (h.tracks_declare hs rfl false) ?_ e
  rintro name ⟨p, hp, y, e', hb, rfl⟩
  obtain ⟨s', hs', rfl | ⟨hn, hn'⟩⟩ := hs p hp
  · rw [hb] at hs'
    cases hs'
    cases around with
    | nil => cases hp
    | cons q outer =>
      obtain ⟨scope, rest, rfl, -⟩ := h
      simp [Scope.initializing, Scope.declare]
  · cases hn'

mutual
theorem Stmt.findings_describes : ∀ (s : Stmt), s.Proper → ∀ (inside : Bool) {around : Surroundings}
    {scopes : List Scope}, Stands around s → TracksUpTo around scopes →
      (s.findings inside scopes).Describes (s.places around)
  | .block body, hp, inside, around, _, hs, ht =>
    Stmt.findingsAll_describes body hp inside (some (.block body, around)) (i := 0)
      (fun g hg => by cases hg; rfl) ((ht.tracks hs rfl).inside (by simp [Scope.declares, LocalScope.params]))
  | .expression value, _, _, _, _, hs, ht => ht.expressions hs rfl (some value)
  | .function name params body, hp, _, around, _, hs, ht =>
    Stmt.findingsAll_describes body hp true (some (.function ⟨name, params, body⟩, around)) (i := 0)
      (fun g hg => by cases hg; rfl) ((ht.tracks_declare hs rfl true).inside (declares_ofParams params))
  | .conditional test yes none, hp, inside, _, _, hs, ht => by
    have h := (ht.expressions hs rfl (some test)).append
      (Stmt.findings_describes yes hp.2.1 inside (hs.part rfl hp.1) ht)
    exact h.append (.nil .none rfl)
  | .conditional test yes (some no), hp, inside, _, scopes, hs, ht => by
    have h := (ht.expressions hs rfl (some test)).append
      (Stmt.findings_describes yes hp.2.1 inside (hs.part rfl hp.1) ht)
    have hd : yes.declare scopes = scopes := by rw [Stmt.declare_of_proper hp.2.1, hp.1]; rfl
    have hno := Stmt.findings_describes no hp.2.2.2 inside (hs.part rfl hp.2.2.1) ht
    rw [Stmt.findings, Stmt.places, hd]
    exact h.append hno
  | .print value, _, _, _, _, hs, ht => ht.expressions hs rfl (some value)
  | .return keyword value, _, inside, _, _, hs, ht => by
    have hnil : ((if inside then .none else Findings.fault keyword .topLevelReturn) : Findings).Describes [] :=
      .nil _ (by split <;> rfl)
    exact hnil.append (ht.expressions hs rfl value)
  | .var _ _, _, _, _, _, hs, ht => ht.initializer hs
  | .while test body, hp, inside, _, _, hs, ht =>
    (ht.expressions hs rfl (some test)).append (Stmt.findings_describes body hp.2 inside (hs.part rfl hp.1) ht)

theorem Stmt.findingsAll_describes : ∀ (ss : List Stmt), Stmt.ProperAll ss → ∀ (inside : Bool) (ground : Ground)
    {i : Nat} {scopes : List Scope}, ground.Has i ss → TracksUpTo (ground.around i) scopes →
      (Stmt.findingsAll inside scopes ss).Describes (Stmt.placesAll ground i ss)
  | [], _, _, _, _, _, _, _ => .nil _ rfl
  | s :: ss, hp, inside, ground, _, _, hg, ht =>
    (Stmt.findings_describes s hp.1 inside hg.stands ht).append
      (Stmt.findingsAll_describes ss hp.2 inside ground hg.tail (ht.next hg hp.1))
end

/-- **The walk over a program describes its places.** -/
theorem resolve_describes {program : List Stmt} (hp : Stmt.ProperAll program) :
    (resolve program).Describes (programPlaces program) :=
  Stmt.findingsAll_describes program hp false none (i := 0) (fun g hg => by cases hg) rfl

/-! ## What is declared at a place -/

/-- What the innermost scope declares before the place, it declares in front of its statement, or the place is in the
initializer of the name. -/
def Surroundings.Settled (around : Surroundings) : Prop :=
  ∀ q ∈ around.head?, ∀ x ∈ namesBefore q, x ∈ q.1.names q.2 ∨ around.OwnInitializer x

theorem Stands.settled {around : Surroundings} {s : Stmt} (h : Stands around s) (hd : s.declared? = none) :
    around.Settled := by
  intro q hq x hx
  rw [h.namesBefore hq, hd] at hx
  exact .inl (by simpa using hx)

theorem Stands.settled_var {around : Surroundings} {name : Token} {e : Option Expr} (h : Stands around (.var name e)) :
    around.Settled := by
  intro q hq x hx
  rw [h.namesBefore hq, List.mem_append, Option.mem_toList] at hx
  refine hx.imp id fun hx => ?_
  obtain ⟨s, hs, rfl | ⟨-, hn⟩⟩ := h q hq
  · exact ⟨q, hq, name, e, hs, Option.some.inj hx⟩
  · cases hn

theorem settled_placesIn {around : Surroundings} (h : around.Settled) {os : List Occurrence} :
    ∀ p ∈ placesIn around os, p.1.Settled := by
  intro p hp
  obtain ⟨o, -, rfl⟩ := List.mem_map.1 hp
  exact h

mutual
theorem Stmt.settled_places : ∀ (s : Stmt), s.Proper → ∀ {around : Surroundings}, Stands around s →
    ∀ p ∈ s.places around, p.1.Settled
  | .block body, hp, around, _ =>
    Stmt.settled_placesAll body hp (some (.block body, around)) 0 fun g hg => by cases hg; rfl
  | .function name params body, hp, around, _ =>
    Stmt.settled_placesAll body hp (some (.function ⟨name, params, body⟩, around)) 0 fun g hg => by cases hg; rfl
  | .conditional test yes no, hp, around, hs => by
    obtain ⟨hy, hyp, hno⟩ := Stmt.proper_conditional.1 hp
    intro p h
    rw [Stmt.places_conditional, List.mem_append, List.mem_append] at h
    rcases h with (h | h) | h
    · exact settled_placesIn (hs.settled rfl) p h
    · exact Stmt.settled_places yes hyp (hs.part rfl hy) p h
    · cases no with
      | none => cases h
      | some no =>
        obtain ⟨hn, hnp⟩ := hno no rfl
        exact Stmt.settled_places no hnp (hs.part rfl hn) p h
  | .expression _, _, _, hs => settled_placesIn (hs.settled rfl)
  | .print _, _, _, hs => settled_placesIn (hs.settled rfl)
  | .return _ _, _, _, hs => settled_placesIn (hs.settled rfl)
  | .var _ _, _, _, hs => settled_placesIn hs.settled_var
  | .while _ body, hp, _, hs => fun p h => (List.mem_append.1 h).elim
      (settled_placesIn (hs.settled rfl) p) (Stmt.settled_places body hp.2 (hs.part rfl hp.1) p)

theorem Stmt.settled_placesAll : ∀ (ss : List Stmt), Stmt.ProperAll ss → ∀ (ground : Ground) (i : Nat),
    ground.Has i ss → ∀ p ∈ Stmt.placesAll ground i ss, p.1.Settled
  | [], _, _, _, _, p, h => by cases h
  | s :: ss, hp, _, _, hg, p, h => (List.mem_append.1 h).elim
      (Stmt.settled_places s hp.1 hg.stands p) (Stmt.settled_placesAll ss hp.2 _ _ hg.tail p)
end

/-! ## Places and occurrences -/

theorem placesIn_snd (around : Surroundings) (os : List Occurrence) : (placesIn around os).map Prod.snd = os := by
  simp [placesIn, Function.comp_def]

mutual
theorem Stmt.places_snd : ∀ (s : Stmt) (around : Surroundings), (s.places around).map Prod.snd = s.occurrences
  | .block body, _ => Stmt.placesAll_snd body _ 0
  | .expression _, _ => placesIn_snd _ _
  | .function _ _ body, _ => Stmt.placesAll_snd body _ 0
  | .conditional test yes none, _ => by
    simp [Stmt.places, Stmt.occurrences, placesIn_snd, Stmt.places_snd yes]
  | .conditional test yes (some no), _ => by
    simp [Stmt.places, Stmt.occurrences, placesIn_snd, Stmt.places_snd yes, Stmt.places_snd no]
  | .print _, _ => placesIn_snd _ _
  | .return _ _, _ => placesIn_snd _ _
  | .var _ _, _ => placesIn_snd _ _
  | .while test body, _ => by
    simp [Stmt.places, Stmt.occurrences, placesIn_snd, Stmt.places_snd body]

theorem Stmt.placesAll_snd : ∀ (ss : List Stmt) (ground : Ground) (i : Nat),
    (Stmt.placesAll ground i ss).map Prod.snd = Stmt.occurrencesAll ss
  | [], _, _ => rfl
  | s :: ss, ground, i => by
    simp [Stmt.placesAll, Stmt.occurrencesAll, Stmt.places_snd s, Stmt.placesAll_snd ss]
end

end Scriptlet
