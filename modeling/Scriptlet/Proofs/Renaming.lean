import Mathlib
import Scriptlet.Proofs.Scoping

/-!
# Renaming a local variable

One scope of a program is chosen, by the way to it through the statements around it.  In the declarations of the scope
one name is replaced by another, and so it is in every occurrence that the binding table leads from to the scope
(`Stmt.renameScope`).

The program and the renamed one are related statement by statement (`Stmt.Renamed`), as long as the new name stands
nowhere in the program and the scope declares no function of the old one (`Stmt.allRenamed_renameAt`).
-/
namespace Scriptlet

/-! ## Depths -/

/-- Where a tree stands: outside the scope whose variable is renamed, or inside it, with so many scopes in between. -/
inductive Depth where
  | outside
  | inside (depth : Nat)
  deriving DecidableEq

/-- One scope further in. -/
def Depth.deeper : Depth → Depth
  | outside => outside
  | inside n => inside (n + 1)

/-- A scope at the first depth encloses one at the second: the chosen scope itself, or any other. -/
inductive Depth.Encloses : Depth → Depth → Prop
  | deeper (k : Depth) : Encloses k k.deeper
  | chosen : Encloses .outside (.inside 0)

theorem Depth.Encloses.inside_succ {k k' : Depth} (h : k.Encloses k') (n : Nat) :
    k' = .inside (n + 1) ↔ k = .inside n := by
  cases h with
  | deeper => cases k <;> simp [Depth.deeper]
  | chosen => simp

/-! ## Renaming -/

/-- A name is to be replaced, in a program with this binding table. -/
structure Renaming where
  table : Bindings
  old : String
  new : String

namespace Renaming

variable (r : Renaming) (k : Depth)

def name (x : String) : String := if x = r.old then r.new else x

def token (t : Token) : Token := { t with lexeme := r.name t.lexeme }

/-- The token of a declaration in a scope at the depth. -/
def declared (t : Token) : Token := if k = .inside 0 then r.token t else t

/-- Whether the table leads from the occurrence to the chosen scope. -/
def Leads (id : Nat) : Prop := ∃ n, k = .inside n ∧ r.table[id]? = some n

instance (id : Nat) : Decidable (r.Leads k id) := match k with
  | .outside => isFalse (by rintro ⟨n, h, -⟩; cases h)
  | .inside n => decidable_of_iff (r.table[id]? = some n)
      ⟨fun h => ⟨n, rfl, h⟩, fun ⟨_, h, hd⟩ => (Depth.inside.inj h) ▸ hd⟩

/-- The token of an occurrence. -/
def occurrence (id : Nat) (t : Token) : Token := if r.Leads k id then r.token t else t

end Renaming

section

variable (r : Renaming) (k : Depth)

mutual
def Expr.rename : Expr → Expr
  | .literal v => .literal v
  | .variable id name => .variable id (r.occurrence k id name)
  | .assign id name value => .assign id (r.occurrence k id name) value.rename
  | .group inner => .group inner.rename
  | .unary operator right => .unary operator right.rename
  | .binary left operator right => .binary left.rename operator right.rename
  | .logical left operator right => .logical left.rename operator right.rename
  | .call callee paren arguments => .call callee.rename paren (Expr.renameAll arguments)

def Expr.renameAll : List Expr → List Expr
  | [] => []
  | e :: es => e.rename :: Expr.renameAll es
end

def optionalRename : Option Expr → Option Expr
  | none => none
  | some e => some (e.rename r k)

end

mutual
def Stmt.rename (r : Renaming) (k : Depth) : Stmt → Stmt
  | .block body => .block (Stmt.renameAll r k.deeper body)
  | .expression value => .expression (value.rename r k)
  | .function name params body => .function name params (Stmt.renameAll r k.deeper body)
  | .conditional test yes none => .conditional (test.rename r k) (yes.rename r k) none
  | .conditional test yes (some no) => .conditional (test.rename r k) (yes.rename r k) (some (no.rename r k))
  | .print value => .print (value.rename r k)
  | .return keyword value => .return keyword (optionalRename r k value)
  | .var name initializer => .var (r.declared k name) (optionalRename r k initializer)
  | .while test body => .while (test.rename r k) (body.rename r k)

def Stmt.renameAll (r : Renaming) (k : Depth) : List Stmt → List Stmt
  | [] => []
  | s :: ss => s.rename r k :: Stmt.renameAll r k ss
end

/-- **The scope with its variable renamed.**  What is no scope stays as it is. -/
def Stmt.renameScope (r : Renaming) : Stmt → Stmt
  | .block body => .block (Stmt.renameAll r (.inside 0) body)
  | .function name params body => .function name (params.map r.token) (Stmt.renameAll r (.inside 0) body)
  | s => s

/-- The scope that the statement opens. -/
def Stmt.scope? : Stmt → Option LocalScope
  | .block body => some (.block body)
  | .function name params body => some (.function ⟨name, params, body⟩)
  | _ => none

/-! ## The way to a statement -/

/-- The statements right inside a statement, by number. -/
def Stmt.part? : Stmt → Nat → Option Stmt
  | .block body, i => body[i]?
  | .function _ _ body, i => body[i]?
  | .conditional _ yes _, 0 => some yes
  | .conditional _ _ no, 1 => no
  | .while _ body, 0 => some body
  | _, _ => none

/-- Puts another statement in the place of a part. -/
def Stmt.withPart : Stmt → Nat → Stmt → Stmt
  | .block body, i, t => .block (body.set i t)
  | .function name params body, i, t => .function name params (body.set i t)
  | .conditional test _ no, 0, t => .conditional test t no
  | .conditional test yes (some _), 1, t => .conditional test yes (some t)
  | .while test _, 0, t => .while test t
  | s, _, _ => s

/-- The statement at the end of the way. -/
def Stmt.at? : List Nat → Stmt → Option Stmt
  | [], s => some s
  | i :: way, s => (s.part? i).bind (Stmt.at? way)

/-- Changes the statement at the end of the way. -/
def Stmt.alter (f : Stmt → Stmt) : List Nat → Stmt → Stmt
  | [], s => f s
  | i :: way, s => (s.part? i).elim s fun t => s.withPart i (t.alter f way)

/-- The scope at the end of the way, which begins at the statement with the number. -/
def scopeAt? (program : List Stmt) (i : Nat) (way : List Nat) : Option LocalScope :=
  (program[i]?.bind (Stmt.at? way)).bind Stmt.scope?

/-- The program with the variable of that scope renamed. -/
def renameAt (r : Renaming) (program : List Stmt) (i : Nat) (way : List Nat) : List Stmt :=
  program[i]?.elim program fun s => program.set i (s.alter (Stmt.renameScope r) way)

/-- The names that the scope declares, its parameters first. -/
def LocalScope.allNames (scope : LocalScope) : List String :=
  scope.params.map Token.lexeme ++ scope.body.filterMap Stmt.declared?

/-! ## Names that stand nowhere -/

mutual
/-- All names that are declared in a statement, at any depth. -/
def Stmt.declarations : Stmt → List String
  | .block body => Stmt.declarationsAll body
  | .function name params body => name.lexeme :: params.map Token.lexeme ++ Stmt.declarationsAll body
  | .conditional _ yes none => yes.declarations
  | .conditional _ yes (some no) => yes.declarations ++ no.declarations
  | .var name _ => [name.lexeme]
  | .while _ body => body.declarations
  | _ => []

def Stmt.declarationsAll : List Stmt → List String
  | [] => []
  | s :: ss => s.declarations ++ Stmt.declarationsAll ss
end

/-- The name is neither declared nor used in the statements. -/
def Unused (x : String) (ss : List Stmt) : Prop :=
  x ∉ Stmt.declarationsAll ss ∧ ∀ o ∈ Stmt.occurrencesAll ss, o.name.lexeme ≠ x

instance (x : String) (ss : List Stmt) : Decidable (Unused x ss) :=
  inferInstanceAs (Decidable (x ∉ Stmt.declarationsAll ss ∧ ∀ o ∈ Stmt.occurrencesAll ss, o.name.lexeme ≠ x))

/-! ## Trees that a renaming relates -/

/-- None of the occurrences has the new name. -/
def Renaming.LacksNew (r : Renaming) (os : List Occurrence) : Prop := ∀ o ∈ os, o.name.lexeme ≠ r.new

section

variable (r : Renaming)

mutual
/-- The second statement is the first with the variable renamed: from the depth on, or in one scope inside it. -/
inductive Stmt.Renamed : Depth → Stmt → Stmt → Prop
  | block {k k' ss ss'} (hk : k.Encloses k') (h : AllRenamed k' ss ss') : Renamed k (.block ss) (.block ss')
  | expression {k e} (he : r.LacksNew e.occurrences) : Renamed k (.expression e) (.expression (e.rename r k))
  | function {k k' t ps ss ss'} (hk : k.Encloses k') (ht : r.declared k t = t) (hn : t.lexeme ≠ r.new)
      (hps : ∀ p ∈ ps, p.lexeme ≠ r.new) (h : AllRenamed k' ss ss') :
      Renamed k (.function t ps ss) (.function t (ps.map (r.declared k')) ss')
  | conditional {k e s s'} (he : r.LacksNew e.occurrences) (hs : Renamed k s s') :
      Renamed k (.conditional e s none) (.conditional (e.rename r k) s' none)
  | alternative {k e s s' t t'} (he : r.LacksNew e.occurrences) (hs : Renamed k s s') (ht : Renamed k t t') :
      Renamed k (.conditional e s (some t)) (.conditional (e.rename r k) s' (some t'))
  | print {k e} (he : r.LacksNew e.occurrences) : Renamed k (.print e) (.print (e.rename r k))
  | return {k t o} (ho : r.LacksNew (optionalOccurrences o)) :
    Renamed k (.return t o) (.return t (optionalRename r k o))
  | var {k t o} (ht : t.lexeme ≠ r.new) (ho : r.LacksNew (optionalOccurrences o)) :
      Renamed k (.var t o) (.var (r.declared k t) (optionalRename r k o))
  | while {k e s s'} (he : r.LacksNew e.occurrences) (hs : Renamed k s s') :
      Renamed k (.while e s) (.while (e.rename r k) s')

inductive Stmt.AllRenamed : Depth → List Stmt → List Stmt → Prop
  | nil {k} : AllRenamed k [] []
  | cons {k s s' ss ss'} (h : Renamed k s s') (hs : AllRenamed k ss ss') : AllRenamed k (s :: ss) (s' :: ss')
end

end

variable {r : Renaming} {k k' : Depth}

/-! ## Renaming gives trees that are related -/

theorem Renaming.name_inj {x y : String} (hx : x ≠ r.new) (hy : y ≠ r.new) : r.name x = r.name y ↔ x = y := by
  unfold name
  grind

theorem Renaming.declared_of_ne (h : k ≠ .inside 0) (t : Token) : r.declared k t = t := if_neg h

theorem Renaming.map_declared_of_ne (h : k ≠ .inside 0) (ps : List Token) : ps.map (r.declared k) = ps :=
  (List.map_congr_left fun t _ => declared_of_ne h t).trans (List.map_id ps)

theorem Depth.deeper_ne (k : Depth) : k.deeper ≠ .inside 0 := by cases k <;> simp [deeper]

theorem Renaming.occurrence_outside (id : Nat) (t : Token) : r.occurrence .outside id t = t :=
  if_neg (by rintro ⟨n, h, -⟩; cases h)

mutual
theorem Expr.rename_outside : ∀ e : Expr, e.rename r .outside = e
  | .literal _ => rfl
  | .variable id t => by rw [Expr.rename, Renaming.occurrence_outside]
  | .assign id t e => by rw [Expr.rename, Renaming.occurrence_outside, Expr.rename_outside e]
  | .group e => by rw [Expr.rename, Expr.rename_outside e]
  | .unary _ e => by rw [Expr.rename, Expr.rename_outside e]
  | .binary l _ e => by rw [Expr.rename, Expr.rename_outside l, Expr.rename_outside e]
  | .logical l _ e => by rw [Expr.rename, Expr.rename_outside l, Expr.rename_outside e]
  | .call e _ es => by rw [Expr.rename, Expr.rename_outside e, Expr.renameAll_outside es]

theorem Expr.renameAll_outside : ∀ es : List Expr, Expr.renameAll r .outside es = es
  | [] => rfl
  | e :: es => by rw [Expr.renameAll, Expr.rename_outside e, Expr.renameAll_outside es]
end

theorem optionalRename_outside (o : Option Expr) : optionalRename r .outside o = o := by
  cases o with
  | none => rfl
  | some e => rw [optionalRename, Expr.rename_outside]

mutual
theorem Stmt.rename_outside : ∀ s : Stmt, s.rename r .outside = s
  | .block ss => by rw [Stmt.rename, Depth.deeper, Stmt.renameAll_outside ss]
  | .expression e => by rw [Stmt.rename, Expr.rename_outside]
  | .function _ _ ss => by rw [Stmt.rename, Depth.deeper, Stmt.renameAll_outside ss]
  | .conditional e s none => by rw [Stmt.rename, Expr.rename_outside, Stmt.rename_outside s]
  | .conditional e s (some t) => by rw [Stmt.rename, Expr.rename_outside, Stmt.rename_outside s, Stmt.rename_outside t]
  | .print e => by rw [Stmt.rename, Expr.rename_outside]
  | .return _ o => by rw [Stmt.rename, optionalRename_outside]
  | .var t o => by rw [Stmt.rename, optionalRename_outside, Renaming.declared_of_ne (by simp)]
  | .while e s => by rw [Stmt.rename, Expr.rename_outside, Stmt.rename_outside s]

theorem Stmt.renameAll_outside : ∀ ss : List Stmt, Stmt.renameAll r .outside ss = ss
  | [] => rfl
  | s :: ss => by rw [Stmt.renameAll, Stmt.rename_outside s, Stmt.renameAll_outside ss]
end

/-- A declaration of the old name is one of a variable. -/
def Stmt.OldIsVariable (r : Renaming) (s : Stmt) : Prop := s.declared? = some r.old → s.variable? = some r.old

theorem Renaming.declared_function {t : Token} {ps : List Token} {ss : List Stmt}
    (h : k = .inside 0 → (Stmt.function t ps ss).OldIsVariable r) : r.declared k t = t := by
  unfold Renaming.declared
  split
  · next hk =>
    have hne : t.lexeme ≠ r.old := fun he => by cases h hk (congrArg some he)
    rw [Renaming.token, Renaming.name, if_neg hne]
  · rfl

/-- The new name stands nowhere in the statement. -/
structure Stmt.Clear (r : Renaming) (s : Stmt) : Prop where
  proper : s.Proper
  declarations : r.new ∉ s.declarations
  occurrences : r.LacksNew s.occurrences

structure Stmt.AllClear (r : Renaming) (ss : List Stmt) : Prop where
  proper : Stmt.ProperAll ss
  declarations : r.new ∉ Stmt.declarationsAll ss
  occurrences : r.LacksNew (Stmt.occurrencesAll ss)

namespace Stmt

section

variable {s t : Stmt} {ss : List Stmt} {e : Expr} {ps : List Token} {name : Token}

theorem AllClear.cons (h : AllClear r (s :: ss)) : s.Clear r ∧ AllClear r ss := by
  obtain ⟨hos, hoss⟩ := List.forall_mem_append.1 h.occurrences
  obtain ⟨hds, hdss⟩ := not_or.1 fun hd => h.declarations (List.mem_append.2 hd)
  exact ⟨⟨h.proper.1, hds, hos⟩, h.proper.2, hdss, hoss⟩

theorem AllClear.mem : ∀ {ss : List Stmt}, AllClear r ss → ∀ s ∈ ss, s.Clear r
  | [], _ => by simp
  | _ :: _, h => List.forall_mem_cons.2 ⟨h.cons.1, h.cons.2.mem⟩

theorem Clear.block (h : (Stmt.block ss).Clear r) : AllClear r ss := ⟨h.proper, h.declarations, h.occurrences⟩

theorem Clear.function (h : (Stmt.function name ps ss).Clear r) :
    name.lexeme ≠ r.new ∧ (∀ p ∈ ps, p.lexeme ≠ r.new) ∧ AllClear r ss := by
  have hd := h.declarations
  simp only [Stmt.declarations, List.cons_append, List.mem_cons, List.mem_append, List.mem_map, not_or,
    not_exists] at hd
  obtain ⟨hname, hps, hd⟩ := hd
  exact ⟨Ne.symm hname, fun p hp hn => hps p ⟨hp, hn⟩, h.proper, hd, h.occurrences⟩

theorem Clear.conditional (h : (Stmt.conditional e s none).Clear r) :
    r.LacksNew e.occurrences ∧ s.declared? = none ∧ s.Clear r := by
  obtain ⟨he, hs⟩ := List.forall_mem_append.1 (List.forall_mem_append.1 h.occurrences).1
  exact ⟨he, h.proper.1, h.proper.2.1, h.declarations, hs⟩

theorem Clear.alternative (h : (Stmt.conditional e s (some t)).Clear r) :
    r.LacksNew e.occurrences ∧ (s.declared? = none ∧ s.Clear r) ∧ t.declared? = none ∧ t.Clear r := by
  obtain ⟨hes, ht⟩ := List.forall_mem_append.1 h.occurrences
  obtain ⟨he, hs⟩ := List.forall_mem_append.1 hes
  obtain ⟨hds, hdt⟩ := not_or.1 fun hd => h.declarations (List.mem_append.2 hd)
  exact ⟨he, ⟨h.proper.1, h.proper.2.1, hds, hs⟩, h.proper.2.2.1, h.proper.2.2.2, hdt, ht⟩

theorem Clear.while (h : (Stmt.while e s).Clear r) : r.LacksNew e.occurrences ∧ s.declared? = none ∧ s.Clear r := by
  obtain ⟨he, hs⟩ := List.forall_mem_append.1 h.occurrences
  exact ⟨he, h.proper.1, h.proper.2, h.declarations, hs⟩

theorem oldIsVariable_of_none (h : s.declared? = none) : s.OldIsVariable r := fun hd => by
  rw [h] at hd
  cases hd

end

mutual
theorem renamed_rename : ∀ (s : Stmt) (k : Depth), s.Clear r → (k = .inside 0 → s.OldIsVariable r) →
    s.Renamed r k (s.rename r k)
  | .block ss, k, h, _ => .block (.deeper k) (renamed_renameAll ss _ h.block fun hk => absurd hk k.deeper_ne)
  | .expression _, _, h, _ => .expression h.occurrences
  | .function name ps ss, k, h, hx => by
    obtain ⟨hname, hps, hss⟩ := h.function
    have hrenamed := Renamed.function (.deeper k) (Renaming.declared_function hx) hname hps
      (renamed_renameAll ss _ hss fun hk => absurd hk k.deeper_ne)
    rwa [Renaming.map_declared_of_ne k.deeper_ne] at hrenamed
  | .conditional _ s none, k, h, _ => by
    obtain ⟨he, hd, hs⟩ := h.conditional
    exact .conditional he (renamed_rename s k hs fun _ => oldIsVariable_of_none hd)
  | .conditional _ s (some t), k, h, _ => by
    obtain ⟨he, ⟨hds, hs⟩, hdt, ht⟩ := h.alternative
    exact .alternative he (renamed_rename s k hs fun _ => oldIsVariable_of_none hds)
      (renamed_rename t k ht fun _ => oldIsVariable_of_none hdt)
  | .print _, _, h, _ => .print h.occurrences
  | .return _ _, _, h, _ => .return h.occurrences
  | .var _ _, _, h, _ => .var (fun hn => h.declarations (List.mem_singleton.2 hn.symm)) h.occurrences
  | .while _ s, k, h, _ => by
    obtain ⟨he, hd, hs⟩ := h.while
    exact .while he (renamed_rename s k hs fun _ => oldIsVariable_of_none hd)

theorem renamed_renameAll : ∀ (ss : List Stmt) (k : Depth), AllClear r ss →
    (k = .inside 0 → ∀ s ∈ ss, s.OldIsVariable r) → AllRenamed r k ss (renameAll r k ss)
  | [], _, _, _ => .nil
  | s :: ss, k, h, hx => .cons (renamed_rename s k h.cons.1 fun hk => hx hk s List.mem_cons_self)
      (renamed_renameAll ss k h.cons.2 fun hk t ht => hx hk t (List.mem_cons_of_mem s ht))
end

/-- Outside the scope nothing is renamed. -/
theorem renamed_self {s : Stmt} (h : s.Clear r) : s.Renamed r .outside s := by
  have hs := s.renamed_rename .outside h nofun
  rwa [rename_outside] at hs

theorem allRenamed_self {ss : List Stmt} (h : AllClear r ss) : AllRenamed r .outside ss ss := by
  have hs := renamed_renameAll ss .outside h nofun
  rwa [renameAll_outside] at hs

theorem AllRenamed.set : ∀ {ss : List Stmt} {i : Nat} {t t' : Stmt}, AllRenamed r k ss ss → ss[i]? = some t →
    t.Renamed r k t' → AllRenamed r k ss (ss.set i t')
  | _ :: _, 0, _, _, .cons _ hs, hi, ht => by
    cases hi
    exact .cons ht hs
  | _ :: _, _ + 1, _, _, .cons h hs, hi, ht => .cons h (AllRenamed.set hs hi ht)

/-- A part of a statement may be renamed alone. -/
theorem Clear.part {s t : Stmt} {i : Nat} (h : s.Clear r) (hi : s.part? i = some t) :
    t.Clear r ∧ ∀ {t'}, t.Renamed r .outside t' → s.Renamed r .outside (s.withPart i t') := by
  cases s with
  | block ss =>
    refine ⟨h.block.mem t (List.mem_of_getElem? hi), fun ht => ?_⟩
    exact .block (.deeper .outside) ((allRenamed_self h.block).set hi ht)
  | function name ps ss =>
    obtain ⟨hname, hps, hss⟩ := h.function
    refine ⟨hss.mem t (List.mem_of_getElem? hi), fun ht => ?_⟩
    have hrenamed := Renamed.function (.deeper .outside) (Renaming.declared_of_ne (by simp) name) hname hps
      ((allRenamed_self hss).set hi ht)
    rwa [Renaming.map_declared_of_ne (Depth.deeper_ne _)] at hrenamed
  | conditional e yes no =>
    cases no with
    | none =>
      obtain ⟨he, -, hyes⟩ := h.conditional
      match i, hi with
      | 0, rfl =>
        refine ⟨hyes, fun ht => ?_⟩
        have hs := Renamed.conditional he ht
        rw [Expr.rename_outside] at hs
        exact hs
      | 1, hi => cases hi
      | _ + 2, hi => cases hi
    | some no =>
      obtain ⟨he, ⟨-, hyes⟩, -, hno⟩ := h.alternative
      match i, hi with
      | 0, rfl =>
        refine ⟨hyes, fun ht => ?_⟩
        have hs := Renamed.alternative he ht (renamed_self hno)
        rw [Expr.rename_outside] at hs
        exact hs
      | 1, rfl =>
        refine ⟨hno, fun ht => ?_⟩
        have hs := Renamed.alternative he (renamed_self hyes) ht
        rw [Expr.rename_outside] at hs
        exact hs
      | _ + 2, hi => cases hi
  | «while» e body =>
    obtain ⟨he, -, hbody⟩ := h.while
    match i, hi with
    | 0, rfl =>
      refine ⟨hbody, fun ht => ?_⟩
      have hs := Renamed.while he ht
      rw [Expr.rename_outside] at hs
      exact hs
    | _ + 1, hi => cases hi
  | _ => cases hi

/-- **The scope at the end of the way is renamed.** -/
theorem renamed_alter : ∀ (way : List Nat) {s : Stmt}, s.Clear r →
    (∀ scope ∈ (s.at? way).bind scope?, ∀ t ∈ scope.body, t.OldIsVariable r) →
      s.Renamed r .outside (s.alter (renameScope r) way)
  | [], s, h, hx => by
    cases s with
    | block ss => exact .block .chosen (renamed_renameAll ss _ h.block fun _ => hx _ rfl)
    | function name ps ss =>
      obtain ⟨hname, hps, hss⟩ := h.function
      exact .function .chosen (Renaming.declared_of_ne (by simp) name) hname hps
        (renamed_renameAll ss _ hss fun _ => hx _ rfl)
    | _ => exact renamed_self h
  | i :: way, s, h, hx => by
    rw [alter]
    cases hi : s.part? i with
    | none => exact renamed_self h
    | some t =>
      obtain ⟨ht, hs⟩ := h.part hi
      refine hs (renamed_alter way ht fun scope hscope => hx scope ?_)
      rw [at?, hi]
      exact hscope

theorem allRenamed_renameAt {program : List Stmt} {i : Nat} {way : List Nat} (h : AllClear r program)
    (hx : ∀ scope ∈ scopeAt? program i way, ∀ t ∈ scope.body, t.OldIsVariable r) :
    AllRenamed r .outside program (renameAt r program i way) := by
  unfold renameAt
  unfold scopeAt? at hx
  cases hi : program[i]? with
  | none => exact allRenamed_self h
  | some s =>
    rw [hi] at hx
    exact (allRenamed_self h).set hi (renamed_alter way (h.mem s (List.mem_of_getElem? hi)) hx)

/-! ## What the renamed scope declares -/

theorem part?_withPart {s t : Stmt} {i : Nat} (h : s.part? i = some t) (t' : Stmt) :
    (s.withPart i t').part? i = some t' := by
  cases s with
  | block ss => exact List.getElem?_set_self (List.getElem?_eq_some_iff.1 h).1
  | function name ps ss => exact List.getElem?_set_self (List.getElem?_eq_some_iff.1 h).1
  | conditional e yes no =>
    match i, no, h with
    | 0, _, _ => rfl
    | 1, some _, _ => rfl
    | 1, none, h => cases h
    | _ + 2, _, h => cases h
  | «while» e body =>
    match i, h with
    | 0, _ => rfl
    | _ + 1, h => cases h
  | _ => cases h

theorem at?_alter (f : Stmt → Stmt) : ∀ (way : List Nat) {s t : Stmt}, s.at? way = some t →
    (s.alter f way).at? way = some (f t)
  | [], _, _, h => by
    cases h
    rfl
  | i :: way, s, t, h => by
    obtain ⟨u, hu, ht⟩ := Option.bind_eq_some_iff.1 h
    rw [alter, hu, Option.elim_some, at?, part?_withPart hu, Option.bind_some]
    exact at?_alter f way ht

theorem declared?_rename {s : Stmt} (h : s.OldIsVariable r) :
    (s.rename r (.inside 0)).declared? = s.declared?.map r.name := by
  cases s with
  | function name ps ss =>
    have hname : r.declared (.inside 0) name = name := Renaming.declared_function fun _ => h
    exact congrArg (fun t => some (Token.lexeme t)) hname.symm
  | conditional e yes no => cases no <;> rfl
  | _ => rfl

theorem filterMap_declared?_renameAll : ∀ {ss : List Stmt}, (∀ s ∈ ss, s.OldIsVariable r) →
    (renameAll r (.inside 0) ss).filterMap declared? = (ss.filterMap declared?).map r.name
  | [], _ => rfl
  | s :: ss, h => by
    obtain ⟨hs, hss⟩ := List.forall_mem_cons.1 h
    rw [renameAll, List.filterMap_cons, List.filterMap_cons, declared?_rename hs, filterMap_declared?_renameAll hss]
    cases s.declared? <;> rfl

/-- **The chosen scope declares the new name in place of the old one**, and all others as before. -/
theorem scopeAt?_renameAt {program : List Stmt} {i : Nat} {way : List Nat} {scope : LocalScope}
    (h : scopeAt? program i way = some scope) (hx : ∀ t ∈ scope.body, t.OldIsVariable r) :
    (scopeAt? (renameAt r program i way) i way).map LocalScope.allNames = some (scope.allNames.map r.name) := by
  obtain ⟨t, ht, hscope⟩ := Option.bind_eq_some_iff.1 h
  obtain ⟨s, hs, ht⟩ := Option.bind_eq_some_iff.1 ht
  have hset : (renameAt r program i way)[i]? = some (s.alter (renameScope r) way) := by
    rw [renameAt, hs]
    exact List.getElem?_set_self (List.getElem?_eq_some_iff.1 hs).1
  rw [scopeAt?, hset, Option.bind_some, at?_alter _ way ht, Option.bind_some]
  cases t with
  | block ss =>
    cases hscope
    exact congrArg some (filterMap_declared?_renameAll hx)
  | function name ps ss =>
    cases hscope
    have hps : (ps.map r.token).map Token.lexeme = (ps.map Token.lexeme).map r.name := by
      rw [List.map_map, List.map_map]
      rfl
    have hss : (renameAll r (.inside 0) ss).filterMap declared? = (ss.filterMap declared?).map r.name :=
      filterMap_declared?_renameAll hx
    simp only [renameScope, scope?, Option.map_some, LocalScope.allNames, LocalScope.params, LocalScope.body,
      List.map_append, hps, hss]
  | _ => cases hscope

end Stmt

end Scriptlet
