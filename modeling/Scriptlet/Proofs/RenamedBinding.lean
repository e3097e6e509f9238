import Mathlib
import Scriptlet.Proofs.Renaming

/-!
# Binding under renaming

The walks over a program and over the renamed one have the same scopes, but for the names of the chosen one.  They make
the same entries, and the second finds no fault where the first finds none (`resolve_renamed`).
-/
namespace Scriptlet

variable {r : Renaming} {k k' : Depth}

/-! ## The walk -/

/-- A walk makes the entries that another one makes, and finds no fault where it finds none. -/
structure Findings.Matches (f f' : Findings) : Prop where
  entries : f'.entries = f.entries
  faults : f.faults = [] → f'.faults = []

namespace Findings.Matches

variable {f f' g g' : Findings}

theorem refl (f : Findings) : f.Matches f := ⟨rfl, id⟩

theorem append (h : f.Matches f') (h' : g.Matches g') : (f ++ g).Matches (f' ++ g') := by
  refine ⟨?_, fun hn => ?_⟩
  · change f'.entries ++ g'.entries = f.entries ++ g.entries
    rw [h.entries, h'.entries]
  · obtain ⟨hf, hg⟩ := List.append_eq_nil_iff.1 hn
    exact List.append_eq_nil_iff.2 ⟨h.faults hf, h'.faults hg⟩

end Findings.Matches

namespace Renaming

/-- What the chosen scope declares. -/
def scope (r : Renaming) (scope : Scope) : Scope := scope.map fun c => (r.name c.1, c.2)

/-- The names of the scope are not the new one. -/
def Avoids (r : Renaming) (scope : Scope) : Prop := ∀ c ∈ scope, c.1 ≠ r.new

theorem lookup_scope {x : String} (hx : x ≠ r.new) : ∀ {scope : Scope}, r.Avoids scope →
    (r.scope scope).lookup (r.name x) = scope.lookup x
  | [], _ => rfl
  | (y, b) :: scope, h => by
    obtain ⟨hy, h⟩ := List.forall_mem_cons.1 h
    have ih := lookup_scope hx h
    have he : (r.name x == r.name y) = (x == y) := by rw [Bool.eq_iff_iff, beq_iff_eq, beq_iff_eq, name_inj hx hy]
    change List.lookup (r.name x) ((r.name y, b) :: r.scope scope) = _
    rw [List.lookup_cons, List.lookup_cons, he, ih]

/-- A name that is not declared, and is not the new one, is not declared by renaming. -/
theorem lookup_scope_none {x : String} (hx : x ≠ r.new) : ∀ {scope : Scope}, scope.lookup x = none →
    (r.scope scope).lookup x = none
  | [], _ => rfl
  | (y, b) :: scope, h => by
    rw [List.lookup_cons] at h
    change List.lookup x ((r.name y, b) :: r.scope scope) = _
    rw [List.lookup_cons]
    have hne : x ≠ y := by
      rintro rfl
      simp at h
    have hname : x ≠ r.name y := by
      unfold name
      split
      · exact hx
      · exact hne
    simp only [beq_eq_false_iff_ne.2 hne, beq_eq_false_iff_ne.2 hname] at h ⊢
    exact lookup_scope_none hx h

theorem lookup_new {scope : Scope} (h : r.Avoids scope) : scope.lookup r.new = none := by
  refine List.lookup_eq_none_iff.2 fun c hc => ?_
  simpa using (h c hc).symm

theorem lookup_name {scope : Scope} (h : r.Avoids scope) {x : String} (hs : scope.lookup x = none) :
    scope.lookup (r.name x) = none := by
  unfold name
  split
  · exact lookup_new h
  · exact hs

end Renaming

/-- The scopes of the walks over a program and over the renamed one, at the depth. -/
inductive ScopesRenamed (r : Renaming) : Depth → List Scope → List Scope → Prop
  | outside (scopes : List Scope) : ScopesRenamed r .outside scopes scopes
  | chosen {scope : Scope} (h : r.Avoids scope) (outer : List Scope) :
      ScopesRenamed r (.inside 0) (scope :: outer) (r.scope scope :: outer)
  | inner {n : Nat} {scope : Scope} {scopes scopes' : List Scope} (h : r.Avoids scope)
      (hs : ScopesRenamed r (.inside n) scopes scopes') :
        ScopesRenamed r (.inside (n + 1)) (scope :: scopes) (scope :: scopes')

theorem declares_eq_isSome (x : String) : ∀ scope : Scope, scope.declares x = (scope.lookup x).isSome
  | [] => rfl
  | (y, b) :: scope => by
    have ih := declares_eq_isSome x scope
    rw [List.lookup_cons]
    unfold Scope.declares at ih ⊢
    grind

theorem distance?_cons (scope : Scope) (scopes : List Scope) (x : String) : Scope.distance? (scope :: scopes) x =
    if (scope.lookup x).isSome then some 0 else (Scope.distance? scopes x).map (· + 1) := by
  rw [Scope.distance?, List.findIdx?_cons, declares_eq_isSome]
  rfl

theorem lookup_of_distance? {scope : Scope} {scopes : List Scope} {x : String}
    (h : Scope.distance? (scope :: scopes) x ≠ some 0) : scope.lookup x = none := by
  by_contra hs
  exact h (by rw [distance?_cons, if_pos (Option.isSome_iff_ne_none.2 hs)])

namespace ScopesRenamed

open Renaming

variable {scopes scopes' : List Scope} {x : String}

/-- The way to the chosen scope is as long under the new name. -/
theorem distance?_name (h : ScopesRenamed r k scopes scopes') (hx : x ≠ r.new) {n : Nat} (hk : k = .inside n)
    (hd : Scope.distance? scopes x = some n) : Scope.distance? scopes' (r.name x) = some n := by
  induction h generalizing n with
  | outside => cases hk
  | chosen h outer =>
    cases hk
    rw [distance?_cons, lookup_scope hx h]
    rw [distance?_cons] at hd
    split at hd
    · next hs => rw [if_pos hs]
    · simp at hd
  | inner h _ ih =>
    cases hk
    have hs := lookup_of_distance? (x := x) (by rw [hd]; simp)
    rw [distance?_cons, hs] at hd
    obtain ⟨d, hd, hn⟩ := Option.map_eq_some_iff.1 hd
    cases Nat.succ.inj hn
    rw [distance?_cons, lookup_name h hs, ih rfl hd]
    rfl

/-- Every other way is as long as before. -/
theorem distance?_eq (h : ScopesRenamed r k scopes scopes') (hx : x ≠ r.new)
    (hd : ∀ n, k = .inside n → Scope.distance? scopes x ≠ some n) :
      Scope.distance? scopes' x = Scope.distance? scopes x := by
  induction h with
  | outside => rfl
  | chosen h outer =>
    have hs := lookup_of_distance? (hd 0 rfl)
    rw [distance?_cons, distance?_cons, hs, lookup_scope_none hx hs]
  | @inner n scope scopes scopes' _ _ ih =>
    rw [distance?_cons, distance?_cons]
    split
    · rfl
    · next hs =>
      -- one scope further out both the depth and the distance are less by one
      rw [ih]
      rintro m hm hd'
      refine hd (m + 1) (by rw [Depth.inside.inj hm]) ?_
      rw [distance?_cons, if_neg hs, hd']
      rfl

/-- **An occurrence keeps its distance.** -/
theorem distance?_occurrence (h : ScopesRenamed r k scopes scopes') {id : Nat} {t : Token} (ht : t.lexeme ≠ r.new)
    (hd : r.table[id]? = Scope.distance? scopes t.lexeme) :
    Scope.distance? scopes' (r.occurrence k id t).lexeme = Scope.distance? scopes t.lexeme := by
  unfold occurrence
  split
  · next hl =>
    obtain ⟨n, hk, hn⟩ := hl
    rw [hd] at hn
    rw [hn]
    exact h.distance?_name ht hk hn
  · next hl => exact h.distance?_eq ht fun n hk hn => hl ⟨n, hk, hd.trans hn⟩

/-- An occurrence in the initializer of its name was in it before. -/
theorem initializing_occurrence (h : ScopesRenamed r k scopes scopes') {id : Nat} {t : Token} (ht : t.lexeme ≠ r.new)
    (hd : r.table[id]? = Scope.distance? scopes t.lexeme)
    (hi : Scope.initializing scopes' (r.occurrence k id t).lexeme = true) :
      Scope.initializing scopes t.lexeme = true := by
  unfold occurrence at hi
  unfold Scope.initializing at *
  cases h with
  | outside =>
    rw [if_neg (by rintro ⟨n, hn, -⟩; cases hn)] at hi
    exact hi
  | chosen h outer =>
    split at hi
    · rw [List.head?_cons, Option.bind_some] at *
      rw [← lookup_scope ht h]
      exact hi
    · next hl =>
      have hs := lookup_of_distance? fun h0 => hl ⟨0, rfl, hd.trans h0⟩
      simp [lookup_scope_none ht hs] at hi
  | @inner n scope scopes scopes' h _ =>
    split at hi
    · next hl =>
      obtain ⟨m, hm, hl⟩ := hl
      cases hm
      rw [hd] at hl
      have hs := lookup_of_distance? (x := t.lexeme) (by rw [hl]; simp)
      have hs' : scope.lookup (r.token t).lexeme = none := lookup_name h hs
      simp [hs'] at hi
    · exact hi

theorem declare (h : ScopesRenamed r k scopes scopes') {t : Token} (ht : t.lexeme ≠ r.new) (ready : Bool) :
    ScopesRenamed r k (Scope.declare t.lexeme ready scopes) (Scope.declare (r.declared k t).lexeme ready scopes') := by
  unfold Renaming.declared
  cases h with
  | outside => exact .outside _
  | chosen h outer => exact .chosen (List.forall_mem_cons.2 ⟨ht, h⟩) outer
  | inner h hs => exact .inner (List.forall_mem_cons.2 ⟨ht, h⟩) hs

/-- The scope that is opened next, with its parameters. -/
theorem opens (h : ScopesRenamed r k scopes scopes') (hk : k.Encloses k') (ps : List Token)
    (hps : ∀ p ∈ ps, p.lexeme ≠ r.new) :
    ScopesRenamed r k' (Scope.ofParams ps :: scopes) (Scope.ofParams (ps.map (r.declared k')) :: scopes') := by
  have havoids : r.Avoids (Scope.ofParams ps) := fun c hc => by
    obtain ⟨p, hp, rfl⟩ := List.mem_map.1 (List.mem_reverse.1 hc)
    exact hps p hp
  cases hk with
  | deeper =>
    cases h with
    | outside => rw [map_declared_of_ne (Depth.deeper_ne _)]; exact .outside _
    | chosen h outer => rw [map_declared_of_ne (Depth.deeper_ne _)]; exact .inner havoids (.chosen h outer)
    | inner h hs => rw [map_declared_of_ne (Depth.deeper_ne _)]; exact .inner havoids (.inner h hs)
  | chosen =>
    cases h with
    | outside =>
      have hps' : Scope.ofParams (ps.map (r.declared (.inside 0))) = r.scope (Scope.ofParams ps) := by
        simp [Scope.ofParams, Renaming.scope, Renaming.declared, Renaming.token]
      rw [hps']
      exact .chosen havoids _

end ScopesRenamed

section

variable {scopes scopes' : List Scope}

theorem Findings.Matches.bound (h : ScopesRenamed r k scopes scopes') {id : Nat} {t : Token} (ht : t.lexeme ≠ r.new)
    (hd : r.table[id]? = Scope.distance? scopes t.lexeme) :
    (Findings.bound scopes id t).Matches (Findings.bound scopes' id (r.occurrence k id t)) := by
  have hd' := h.distance?_occurrence ht hd
  unfold Findings.bound
  rw [hd']
  exact .refl _

/-- The table knows the distance of the occurrence, and its name is not the new one. -/
def Renaming.Locates (r : Renaming) (scopes : List Scope) (o : Occurrence) : Prop :=
  o.name.lexeme ≠ r.new ∧ r.table[o.id]? = Scope.distance? scopes o.name.lexeme

mutual
theorem Expr.findings_rename (h : ScopesRenamed r k scopes scopes') :
    ∀ e : Expr, (∀ o ∈ e.occurrences, r.Locates scopes o) →
      (e.findings scopes).Matches ((e.rename r k).findings scopes')
  | .literal _, _ => .refl _
  | .variable id t, ho => by
    obtain ⟨ht, hd⟩ := ho _ (List.mem_singleton_self _)
    refine .append ⟨?_, fun hn => ?_⟩ (.bound h ht hd)
    · split <;> split <;> rfl
    · split
      · next hi =>
        rw [if_pos (h.initializing_occurrence ht hd hi)] at hn
        cases hn
      · rfl
  | .assign id t e, ho => by
    obtain ⟨ht, hd⟩ := ho ⟨id, t, true⟩ (by simp [Expr.occurrences])
    exact .append (Expr.findings_rename h e fun o he => ho o (List.mem_append_left _ he)) (.bound h ht hd)
  | .group e, ho => by
    rw [Expr.rename, Expr.findings, Expr.findings]
    exact Expr.findings_rename h e ho
  | .unary _ e, ho => by
    rw [Expr.rename, Expr.findings, Expr.findings]
    exact Expr.findings_rename h e ho
  | .binary l _ e, ho => .append (Expr.findings_rename h l fun o hl => ho o (List.mem_append_left _ hl))
      (Expr.findings_rename h e fun o he => ho o (List.mem_append_right _ he))
  | .logical l _ e, ho => .append (Expr.findings_rename h l fun o hl => ho o (List.mem_append_left _ hl))
      (Expr.findings_rename h e fun o he => ho o (List.mem_append_right _ he))
  | .call e _ es, ho => .append (Expr.findings_rename h e fun o he => ho o (List.mem_append_left _ he))
      (Expr.findingsAll_renameAll h es fun o hes => ho o (List.mem_append_right _ hes))

theorem Expr.findingsAll_renameAll (h : ScopesRenamed r k scopes scopes') : ∀ es : List Expr,
    (∀ o ∈ Expr.occurrencesAll es, r.Locates scopes o) →
      (Expr.findingsAll scopes es).Matches (Expr.findingsAll scopes' (Expr.renameAll r k es))
  | [], _ => .refl _
  | e :: es, ho => .append (Expr.findings_rename h e fun o he => ho o (List.mem_append_left _ he))
      (Expr.findingsAll_renameAll h es fun o hes => ho o (List.mem_append_right _ hes))
end

theorem optionalFindings_rename (h : ScopesRenamed r k scopes scopes') (e : Option Expr)
    (ho : ∀ o ∈ optionalOccurrences e, r.Locates scopes o) :
    (optionalFindings scopes e).Matches (optionalFindings scopes' (optionalRename r k e)) := by
  cases e with
  | none => exact .refl _
  | some e => exact e.findings_rename h ho

/-- The table knows the places. -/
def Renaming.LocatesPlaces (r : Renaming) (places : List ScopedOccurrence) : Prop :=
  ∀ p ∈ places, r.table[p.2.id]? = p.1.distance? p.2.name.lexeme

theorem Tracks.knows {around : Surroundings} (h : Tracks around scopes) {os : List Occurrence} (hs : r.LacksNew os)
    (ht : r.LocatesPlaces (placesIn around os)) : ∀ o ∈ os, r.Locates scopes o := fun o ho =>
  ⟨hs o ho, (ht _ (List.mem_map_of_mem ho)).trans (h.distance? _).symm⟩

/-- Statements declare what the renamed ones declare, renamed. -/
theorem Stmt.Renamed.declare : ∀ {k : Depth} {s s' : Stmt}, s.Renamed r k s' → ∀ {scopes scopes' : List Scope},
    ScopesRenamed r k scopes scopes' → ScopesRenamed r k (s.declare scopes) (s'.declare scopes')
  | _, _, _, .block _ _, _, _, h => h
  | _, _, _, .expression _, _, _, h => h
  | _, _, _, .function _ ht hn _ _, _, _, h => by
    have h := h.declare hn true
    rw [ht] at h
    exact h
  | _, _, _, .conditional _ hs, _, _, h => Stmt.Renamed.declare hs h
  | _, _, _, .alternative _ hs ht, _, _, h => Stmt.Renamed.declare ht (Stmt.Renamed.declare hs h)
  | _, _, _, .print _, _, _, h => h
  | _, _, _, .return _, _, _, h => h
  | _, _, _, .var ht _, _, _, h => h.declare ht true
  | _, _, _, .while _ hs, _, _, h => Stmt.Renamed.declare hs h

theorem TracksUpTo.kept {around : Surroundings} {s : Stmt} (h : TracksUpTo around scopes) (hs : Stands around s)
    (hd : s.declared? = none) (hr : ScopesRenamed r k scopes scopes') {e : Option Expr}
    (he : r.LacksNew (optionalOccurrences e)) (ht : r.LocatesPlaces (placesIn around (optionalOccurrences e))) :
    (optionalFindings scopes e).Matches (optionalFindings scopes' (optionalRename r k e)) :=
  optionalFindings_rename hr e ((h.tracks hs hd).knows he ht)

mutual
theorem Stmt.Renamed.findings (inside : Bool) : ∀ {k : Depth} {s s' : Stmt}, s.Renamed r k s' → s.Proper →
    ∀ {around : Surroundings} {scopes scopes' : List Scope}, Stands around s → TracksUpTo around scopes →
      ScopesRenamed r k scopes scopes' → r.LocatesPlaces (s.places around) →
        (s.findings inside scopes).Matches (s'.findings inside scopes')
  | _, _, _, @Stmt.Renamed.block _ _ _ ss _ hk h, hp, around, _, _, hs, ht, hr, hplaces =>
    Stmt.AllRenamed.findings inside h hp (some (.block ss, around)) 0 (fun g hg => by cases hg; rfl)
      ((ht.tracks hs rfl).inside (by simp [Scope.declares, LocalScope.params])) (hr.opens hk [] (by simp)) hplaces
  | _, _, _, .expression he, _, _, _, _, hs, ht, hr, hplaces => ht.kept hs rfl hr (e := some _) he hplaces
  | _, _, _, @Stmt.Renamed.function _ _ _ t ps ss _ hk hn hnew hps h, hp, around, _, _, hs, ht, hr, hplaces => by
    have hr' := hr.declare hnew true
    rw [hn] at hr'
    exact Stmt.AllRenamed.findings true h hp (some (.function ⟨t, ps, ss⟩, around)) 0 (fun g hg => by cases hg; rfl)
      ((ht.tracks_declare hs rfl true).inside (declares_ofParams ps)) (hr'.opens hk ps hps) hplaces
  | _, _, _, .conditional he h, hp, _, _, _, hs, ht, hr, hplaces => by
    rw [Stmt.places_conditional] at hplaces
    refine .append (.append (ht.kept hs rfl hr (e := some _) he fun p h => hplaces p ?_) ?_) (.refl _)
    · exact List.mem_append_left _ (List.mem_append_left _ h)
    · exact Stmt.Renamed.findings inside h hp.2.1 (hs.part rfl hp.1) ht hr fun p h =>
        hplaces p (List.mem_append_left _ (List.mem_append_right _ h))
  | _, _, _, @Stmt.Renamed.alternative _ _ _ yes _ _ _ he h h', hp, _, scopes, _, hs, ht, hr, hplaces => by
    have hd : yes.declare scopes = scopes := by rw [Stmt.declare_of_proper hp.2.1, hp.1]; rfl
    have hr' := h.declare hr
    rw [hd] at hr'
    rw [Stmt.places_conditional] at hplaces
    rw [Stmt.findings, Stmt.findings, hd]
    refine .append (.append (ht.kept hs rfl hr (e := some _) he fun p h => hplaces p ?_) ?_) ?_
    · exact List.mem_append_left _ (List.mem_append_left _ h)
    · exact Stmt.Renamed.findings inside h hp.2.1 (hs.part rfl hp.1) ht hr fun p h =>
        hplaces p (List.mem_append_left _ (List.mem_append_right _ h))
    · exact Stmt.Renamed.findings inside h' hp.2.2.2 (hs.part rfl hp.2.2.1) ht hr' fun p h =>
        hplaces p (List.mem_append_right _ h)
  | _, _, _, .print he, _, _, _, _, hs, ht, hr, hplaces => ht.kept hs rfl hr (e := some _) he hplaces
  | _, _, _, .return ho, _, _, _, _, hs, ht, hr, hplaces => .append (.refl _) (ht.kept hs rfl hr ho hplaces)
  | _, _, _, .var hn ho, _, _, _, _, hs, ht, hr, hplaces =>
    optionalFindings_rename (hr.declare hn false) _ ((ht.tracks_declare hs rfl false).knows ho hplaces)
  | _, _, _, .while he h, hp, _, _, _, hs, ht, hr, hplaces => by
    refine .append (ht.kept hs rfl hr (e := some _) he fun p h => hplaces p ?_) ?_
    · exact List.mem_append_left _ h
    · exact Stmt.Renamed.findings inside h hp.2 (hs.part rfl hp.1) ht hr fun p h =>
        hplaces p (List.mem_append_right _ h)

theorem Stmt.AllRenamed.findings (inside : Bool) : ∀ {k : Depth} {ss ss' : List Stmt}, Stmt.AllRenamed r k ss ss' →
    Stmt.ProperAll ss → ∀ (ground : Ground) (i : Nat) {scopes scopes' : List Scope}, ground.Has i ss →
      TracksUpTo (ground.around i) scopes → ScopesRenamed r k scopes scopes' →
        r.LocatesPlaces (Stmt.placesAll ground i ss) →
        (Stmt.findingsAll inside scopes ss).Matches (Stmt.findingsAll inside scopes' ss')
  | _, _, _, .nil, _, _, _, _, _, _, _, _, _ => .refl _
  | _, _, _, .cons h hs, hp, ground, i, _, _, hg, ht, hr, hplaces =>
    .append (Stmt.Renamed.findings inside h hp.1 hg.stands ht hr fun p h => hplaces p (List.mem_append_left _ h))
      (Stmt.AllRenamed.findings inside hs hp.2 ground (i + 1) hg.tail (ht.next hg hp.1) (h.declare hr) fun p h =>
        hplaces p (List.mem_append_right _ h))
end

end

/-- **The walk over the renamed program makes the same entries, and finds no fault where there was none.** -/
theorem resolve_renamed {program program' : List Stmt} (h : Stmt.AllRenamed r .outside program program')
    (hp : Stmt.ProperAll program) (ht : r.LocatesPlaces (programPlaces program)) :
    (resolve program).Matches (resolve program') :=
  h.findings false hp none 0 (fun g hg => by cases hg) rfl (.outside []) ht

end Scriptlet
