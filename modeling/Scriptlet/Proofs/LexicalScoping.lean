import Mathlib
import Scriptlet.Proofs.Agreement

/-!
# Lexical scoping

The table of a parsed program read as a rule of the language: an occurrence has an entry when a local scope around it
declares its name at or before that point (`LocalScope.Declares`), the entry counts the scopes inside the innermost one
that does, and no other number is a key (`table_lexical`).
-/
namespace Scriptlet

/-! ## What a scope declares -/

/-- The scope declares the name at or before the places in its statement with the index. -/
inductive LocalScope.Declares (scope : LocalScope) (i : Nat) (name : String) : Prop
  | param {p : Token} (h : p ∈ scope.params) (hn : p.lexeme = name)
  | earlierVar {j : Nat} {x : Token} {e : Option Expr} (hj : j < i) (h : scope.body[j]? = some (.var x e))
      (hn : x.lexeme = name)
  | earlierFunction {j : Nat} {f : Token} {params : List Token} {body : List Stmt} (hj : j < i)
      (h : scope.body[j]? = some (.function f params body)) (hn : f.lexeme = name)
  | ownBody {f : Token} {params : List Token} {body : List Stmt} (h : scope.body[i]? = some (.function f params body))
      (hn : f.lexeme = name)
  | ownInitializer {x : Token} {e : Option Expr} (h : scope.body[i]? = some (.var x e)) (hn : x.lexeme = name)

theorem Stmt.declared?_eq_some {s : Stmt} {name : String} (h : s.declared? = some name) :
    (∃ x e, s = .var x e ∧ x.lexeme = name) ∨ ∃ f params body, s = .function f params body ∧ f.lexeme = name := by
  cases s with
  | var x e => exact .inl ⟨x, e, rfl, Option.some.inj h⟩
  | function f params body => exact .inr ⟨f, params, body, rfl, Option.some.inj h⟩
  | _ => cases h

theorem LocalScope.mem_names {scope : LocalScope} {n : Nat} {name : String} :
    name ∈ scope.names n ↔
      name ∈ scope.params.map Token.lexeme ∨ ∃ j < n, ∃ s, scope.body[j]? = some s ∧ s.declared? = some name := by
  rw [names, List.mem_append, List.mem_filterMap]
  refine or_congr_right ⟨?_, ?_⟩
  · rintro ⟨s, hs, hd⟩
    obtain ⟨j, hj⟩ := List.mem_iff_getElem?.1 hs
    rw [List.getElem?_take, Option.ite_none_right_eq_some] at hj
    exact ⟨j, hj.1, s, hj.2, hd⟩
  · rintro ⟨j, hjn, s, hj, hd⟩
    refine ⟨s, List.mem_iff_getElem?.2 ⟨j, ?_⟩, hd⟩
    rw [List.getElem?_take_of_lt hjn, hj]

/-- The names before a place are those that the scope declares there. -/
theorem mem_namesBefore {p : LocalScope × Nat} {name : String} : name ∈ namesBefore p ↔ p.1.Declares p.2 name := by
  rw [namesBefore, LocalScope.mem_names]
  constructor
  · rintro (h | ⟨j, hj, s, hs, hd⟩)
    · obtain ⟨x, hx, hn⟩ := List.mem_map.1 h
      exact .param hx hn
    · rcases Nat.lt_succ_iff_lt_or_eq.1 hj with hj | rfl
      · obtain ⟨x, e, rfl, hn⟩ | ⟨f, params, body, rfl, hn⟩ := Stmt.declared?_eq_some hd
        · exact .earlierVar hj hs hn
        · exact .earlierFunction hj hs hn
      · obtain ⟨x, e, rfl, hn⟩ | ⟨f, params, body, rfl, hn⟩ := Stmt.declared?_eq_some hd
        · exact .ownInitializer hs hn
        · exact .ownBody hs hn
  · rintro (⟨h, rfl⟩ | ⟨hj, h, rfl⟩ | ⟨hj, h, rfl⟩ | ⟨h, rfl⟩ | ⟨h, rfl⟩)
    · exact .inl (List.mem_map_of_mem h)
    · exact .inr ⟨_, Nat.lt_succ_of_lt hj, _, h, rfl⟩
    · exact .inr ⟨_, Nat.lt_succ_of_lt hj, _, h, rfl⟩
    · exact .inr ⟨_, Nat.lt_succ_self _, _, h, rfl⟩
    · exact .inr ⟨_, Nat.lt_succ_self _, _, h, rfl⟩

/-! ## Distances -/

namespace Surroundings

/-- The `d`-th scope, counted from the inside, declares the name before the place, and no scope inside it does. -/
def Innermost (around : Surroundings) (name : String) (d : Nat) : Prop :=
  (∃ p, around[d]? = some p ∧ p.1.Declares p.2 name) ∧ ∀ j < d, ∀ p, around[j]? = some p → ¬ p.1.Declares p.2 name

theorem distance?_eq_some {around : Surroundings} {name : String} {d : Nat} :
    around.distance? name = some d ↔ around.Innermost name d := by
  rw [distance?, List.findIdx?_eq_some_iff_getElem]
  simp only [decide_eq_true_eq, mem_namesBefore]
  constructor
  · rintro ⟨hd, h, hlt⟩
    refine ⟨⟨around[d], List.getElem?_eq_getElem hd, h⟩, fun j hj p hp => ?_⟩
    obtain ⟨_, rfl⟩ := List.getElem?_eq_some_iff.1 hp
    exact hlt j hj
  · rintro ⟨⟨p, hp, h⟩, hlt⟩
    obtain ⟨hd, rfl⟩ := List.getElem?_eq_some_iff.1 hp
    exact ⟨hd, h, fun j hj => hlt j hj _ (List.getElem?_eq_getElem (hj.trans hd))⟩

theorem distance?_isSome {around : Surroundings} {name : String} :
    (∃ d, around.distance? name = some d) ↔ ∃ p ∈ around, p.1.Declares p.2 name := by
  rw [← Option.isSome_iff_exists, distance?, List.findIdx?_isSome, List.any_eq_true]
  simp only [decide_eq_true_eq, mem_namesBefore]

end Surroundings

/-! ## The table -/

theorem Findings.table_eq_add (f : Findings) : f.table = Bindings.add ∅ f.entries :=
  Std.TreeMap.ofList_eq_insertMany_empty

section

variable (fresh : Nat) (tokens : List Token)

theorem nodup_parse : (idsOf (Stmt.occurrencesAll (parse fresh tokens).statements)).Nodup :=
  (parse_shaped fresh tokens).numbered.nodup

theorem resolve_parse :
    (resolve (parse fresh tokens).statements).Describes (programPlaces (parse fresh tokens).statements) :=
  resolve_describes (parse_shaped fresh tokens).formed.proper

/-- Each place of a parsed program has its distance in the table. -/
theorem table_of_mem {p : ScopedOccurrence} (hp : p ∈ programPlaces (parse fresh tokens).statements) :
    (resolve (parse fresh tokens).statements).table[p.2.id]? = p.1.distance? p.2.name.lexeme := by
  have hn := nodup_parse fresh tokens
  rw [← Stmt.placesAll_snd _ none 0] at hn
  rw [Findings.table_eq_add, (resolve_parse fresh tokens).entries]
  exact Bindings.add_of_mem hn hp Std.TreeMap.getElem?_emptyc

/-- A key of the table is the number of a place. -/
theorem exists_place_of_table {k d : Nat} (h : (resolve (parse fresh tokens).statements).table[k]? = some d) :
    ∃ p ∈ programPlaces (parse fresh tokens).statements, p.2.id = k := by
  by_contra hk
  push Not at hk
  rw [Findings.table_eq_add, (resolve_parse fresh tokens).entries, Bindings.add_of_not_mem hk,
    Std.TreeMap.getElem?_emptyc] at h
  cases h

end

/-- **The table is lexical scoping.**  The occurrences of a parsed program have different numbers; an occurrence has an
entry when a scope around it declares its name before it, and then the entry is the number of scopes inside the
innermost such scope; every key is the number of an occurrence. -/
theorem table_lexical (fresh : Nat) (tokens : List Token) :
    let program := (parse fresh tokens).statements
    let table := (resolve program).table
    (idsOf (Stmt.occurrencesAll program)).Nodup ∧
      (programPlaces program).map Prod.snd = Stmt.occurrencesAll program ∧
      (∀ p ∈ programPlaces program,
        (p.2.id ∈ table ↔ ∃ q ∈ p.1, q.1.Declares q.2 p.2.name.lexeme) ∧
          ∀ d, table[p.2.id]? = some d ↔ p.1.Innermost p.2.name.lexeme d) ∧
      ∀ k ∈ table, k ∈ idsOf (Stmt.occurrencesAll program) := by
  intro program table
  have hplaces : (programPlaces program).map Prod.snd = Stmt.occurrencesAll program := Stmt.placesAll_snd program none 0
  refine ⟨nodup_parse fresh tokens, hplaces, fun p hp => ⟨?_, fun d => ?_⟩, fun k hk => ?_⟩
  · rw [Std.TreeMap.mem_iff_isSome_getElem?, table_of_mem fresh tokens hp, Option.isSome_iff_exists]
    exact Surroundings.distance?_isSome
  · rw [table_of_mem fresh tokens hp]
    exact Surroundings.distance?_eq_some
  · rw [Std.TreeMap.mem_iff_isSome_getElem?, Option.isSome_iff_exists] at hk
    obtain ⟨d, hd⟩ := hk
    obtain ⟨p, hp, rfl⟩ := exists_place_of_table fresh tokens hd
    rw [← hplaces]
    exact List.mem_map_of_mem (List.mem_map_of_mem hp)

end Scriptlet
