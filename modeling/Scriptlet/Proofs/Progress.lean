import Mathlib
import Scriptlet.Proofs.Preservation

/-!
# The progress of frames

A frame holds just what its scope declares in as many statements as have been run in it (`Progress.AccountsFor`).  The
frames of the call that is running have come to the statement that is run (`Progress.Live`).  The frames a function
closes over may have come further (`Progress.Beyond`), and what they have got since is not mentioned in the function.

Then the distance in the table and the search from the current frame outward lead to one frame
(`Progress.Arrived.holder_eq_nearest`).
-/
namespace Scriptlet

/-! ## Scopes around a function -/

/-- The scopes around the innermost function that the place is in. -/
def Surroundings.aroundFunction : Surroundings → Surroundings
  | [] => []
  | (.block _, _) :: outer => aroundFunction outer
  | (.function _, _) :: outer => outer

/-- No scope around a function that the place is in declares the name behind the statement that contains the
function. -/
def Surroundings.Unshadowed (around : Surroundings) (name : String) : Prop :=
  ∀ q ∈ around.aroundFunction, ∀ s ∈ q.1.body.drop (q.2 + 1), s.declared? ≠ some name

instance (around : Surroundings) (name : String) : Decidable (around.Unshadowed name) :=
  inferInstanceAs (Decidable (∀ q ∈ around.aroundFunction, ∀ s ∈ q.1.body.drop (q.2 + 1), s.declared? ≠ some name))

namespace LocalScope

variable {scope : LocalScope} {x : String} {i j : Nat}

theorem names_mono (h : i ≤ j) (hx : x ∈ scope.names i) : x ∈ scope.names j := by
  unfold names at *
  rcases List.mem_append.1 hx with hx | hx
  · exact List.mem_append_left _ hx
  · obtain ⟨s, hs, hd⟩ := List.mem_filterMap.1 hx
    rw [← Nat.min_eq_left h, ← List.take_take] at hs
    exact List.mem_append_right _ (List.mem_filterMap.2 ⟨s, List.mem_of_mem_take hs, hd⟩)

/-- What is not declared behind a statement is declared up to it. -/
theorem names_of_not_declared (h : ∀ s ∈ scope.body.drop i, s.declared? ≠ some x) (hx : x ∈ scope.names j) :
    x ∈ scope.names i := by
  unfold names at *
  rcases List.mem_append.1 hx with hx | hx
  · exact List.mem_append_left _ hx
  · obtain ⟨s, hs, hd⟩ := List.mem_filterMap.1 hx
    have hs := List.mem_of_mem_take hs
    rw [← List.take_append_drop i scope.body] at hs
    rcases List.mem_append.1 hs with hs | hs
    · exact List.mem_append_right _ (List.mem_filterMap.2 ⟨s, hs, hd⟩)
    · exact absurd hd (h s hs)

end LocalScope

/-! ## Progress -/

/-- For every local frame, the scope it was made for and how many of its statements have been run in it. -/
abbrev Progress := FrameId → Option (LocalScope × Nat)

/-- What is asked of an occurrence: its distance is in the table, no scope around a function declares its name late, and
the innermost scope has declared it, if it does, before the statement it stands in. -/
structure ScopedOccurrence.Findable (table : Bindings) (p : ScopedOccurrence) : Prop where
  distance : table[p.2.id]? = p.1.distance? p.2.name.lexeme
  unshadowed : p.1.Unshadowed p.2.name.lexeme
  ready : ∀ q ∈ p.1.head?, p.2.name.lexeme ∈ namesBefore q → p.2.name.lexeme ∈ q.1.names q.2

namespace Progress

/-- The frames that a function closes over: they hold what their scopes declare before it, and maybe more. -/
def Beyond (W : Progress) (around : Surroundings) (fs : List FrameId) : Prop :=
  List.Forall₂ (fun q f => ∃ i, W f = some (q.1, i) ∧ ∀ x ∈ namesBefore q, x ∈ q.1.names i) around fs

/-- The frames of the call that is running have come to their statements; those around it are closed over.  A scope
around a block is not at a declaration. -/
inductive Live (W : Progress) : Surroundings → List FrameId → Prop
  | top : Live W [] []
  | block {body : List Stmt} {i : Nat} {outer : Surroundings} {f : FrameId} {fs : List FrameId}
      (h : W f = some (.block body, i)) (hs : ∀ q ∈ outer.head?, ∀ x ∈ namesBefore q, x ∈ q.1.names q.2)
      (ho : Live W outer fs) : Live W ((.block body, i) :: outer) (f :: fs)
  | function {g : Function} {i : Nat} {outer : Surroundings} {f : FrameId} {fs : List FrameId}
      (h : W f = some (.function g, i)) (ho : W.Beyond outer fs) : Live W ((.function g, i) :: outer) (f :: fs)

/-- The current frame has come to the place. -/
def Arrived (W : Progress) (s : Store) (around : Surroundings) (here : FrameId) : Prop :=
  ∃ fs, s.chain here = fs ++ [Machine.globals] ∧ here ∉ fs.tail ∧ W.Live around fs

section

variable (table : Bindings) (W : Progress) (s : Store)

/-- The function was declared in the scopes whose frames it closes over. -/
def Captured (f : Function) (frame : FrameId) : Prop :=
  ∃ around fs, s.chain frame = fs ++ [Machine.globals] ∧ W.Beyond around fs ∧ Stmt.ProperAll f.body ∧
    ∀ p ∈ Stmt.placesAll (some (.function f, around)) 0 f.body, p.Findable table

def Searchable : Value → Prop
  | .callable (.closure _ f frame) => Captured table W s f frame
  | _ => True

/-- **The store holds just the names that the progress of its frames gives.** -/
structure AccountsFor : Prop where
  globals : s.chain Machine.globals = [Machine.globals]
  free : W Machine.globals = none
  bounded : ∀ f e, W f = some e → f < s.frames.size
  names : ∀ f scope i, W f = some (scope, i) → ∀ x, s.holds x f = true ↔ x ∈ scope.names i
  searchable : ∀ f, ∀ c ∈ s.cells f, Searchable table W s c.2

end

/-- What becomes of progress and store: frames stay, and only the frame `g` gets on. -/
structure Onward (g : Option FrameId) (W : Progress) (s : Store) (W' : Progress) (s' : Store) : Prop where
  size : s.frames.size ≤ s'.frames.size
  chain : ∀ f < s.frames.size, s'.chain f = s.chain f
  same : ∀ f e, W f = some e → g ≠ some f → W' f = some e
  grows : ∀ f scope i, W f = some (scope, i) → ∃ j, i ≤ j ∧ W' f = some (scope, j)

variable {table : Bindings} {W W' W'' : Progress} {s s' s'' : Store} {g : Option FrameId} {around : Surroundings}
  {fs : List FrameId} {here : FrameId}

namespace Onward

theorem refl (g : Option FrameId) (W : Progress) (s : Store) : Onward g W s W s :=
  ⟨Nat.le_refl _, fun _ _ => rfl, fun _ _ h _ => h, fun _ _ i h => ⟨i, Nat.le_refl i, h⟩⟩

theorem trans (h : Onward g W s W' s') (h' : Onward g W' s' W'' s'') : Onward g W s W'' s'' where
  size := Nat.le_trans h.size h'.size
  chain f hf := (h'.chain f (Nat.lt_of_lt_of_le hf h.size)).trans (h.chain f hf)
  same f e hf hg := h'.same f e (h.same f e hf hg) hg
  grows f scope i hf := by
    obtain ⟨j, hij, hj⟩ := h.grows f scope i hf
    obtain ⟨k, hjk, hk⟩ := h'.grows f scope j hj
    exact ⟨k, Nat.le_trans hij hjk, hk⟩

theorem weaken (h : Onward none W s W' s') (g : Option FrameId) : Onward g W s W' s' :=
  ⟨h.size, h.chain, fun f e hf _ => h.same f e hf (by simp), h.grows⟩

/-- The progress of a frame that was not there does not count. -/
theorem of_new {f : FrameId} (h : Onward none W s W' s') (h' : Onward (some f) W' s' W'' s'') (hW : W f = none) :
    Onward none W s W'' s'' where
  size := Nat.le_trans h.size h'.size
  chain f' hf := (h'.chain f' (Nat.lt_of_lt_of_le hf h.size)).trans (h.chain f' hf)
  same f' e hf _ := by
    refine h'.same f' e (h.same f' e hf (by simp)) ?_
    rintro ⟨⟩
    rw [hW] at hf
    cases hf
  grows := ((h.weaken (some f)).trans h').grows

theorem of_store (W : Progress) (h : s.Later g s') : Onward none W s W s' :=
  ⟨h.size, h.chain, fun _ _ h _ => h, fun _ _ i h => ⟨i, Nat.le_refl i, h⟩⟩

end Onward

theorem lt_of_chain (h : s.chain here = fs ++ [Machine.globals]) : here < s.frames.size := by
  cases fs with
  | nil => exact (Store.lt_size_of_chain h).1
  | cons f fs => exact (Store.lt_size_of_chain h).1

theorem Beyond.later (h : W.Beyond around fs) (hl : Onward g W s W' s') : W'.Beyond around fs := by
  refine List.Forall₂.imp (fun q f ⟨i, hi, hx⟩ => ?_) h
  obtain ⟨j, hij, hj⟩ := hl.grows f q.1 i hi
  exact ⟨j, hj, fun x hq => LocalScope.names_mono hij (hx x hq)⟩

theorem Beyond.kept (h : W.Beyond around fs) (hW : ∀ f ∈ fs, ∀ e, W f = some e → W' f = some e) :
    W'.Beyond around fs := by
  induction h with
  | nil => exact .nil
  | @cons q f outer fs hq _ ih =>
    obtain ⟨i, hi, hx⟩ := hq
    exact .cons ⟨i, hW f List.mem_cons_self _ hi, hx⟩ (ih fun g hg => hW g (List.mem_cons_of_mem f hg))

theorem Live.kept (h : W.Live around fs) (hW : ∀ f ∈ fs, ∀ e, W f = some e → W' f = some e) : W'.Live around fs := by
  induction h with
  | top => exact .top
  | block h hs _ ih => exact .block (hW _ List.mem_cons_self _ h) hs (ih fun g hg => hW g (List.mem_cons_of_mem _ hg))
  | function h ho =>
    exact .function (hW _ List.mem_cons_self _ h) (ho.kept fun g hg => hW g (List.mem_cons_of_mem _ hg))

theorem Arrived.later (h : Arrived W s around here) (hl : Onward none W s W' s') : Arrived W' s' around here := by
  obtain ⟨fs, hc, hn, hlive⟩ := h
  exact ⟨fs, (hl.chain here (lt_of_chain hc)).trans hc, hn, hlive.kept fun f _ e hf => hl.same f e hf (by simp)⟩

theorem Searchable.later {v : Value} (h : Searchable table W s v) (hl : Onward g W s W' s') :
    Searchable table W' s' v := by
  unfold Searchable at *
  split
  · obtain ⟨around, fs, hc, hf, hp⟩ := h
    exact ⟨around, fs, (hl.chain _ (lt_of_chain hc)).trans hc, hf.later hl, hp⟩
  · trivial

/-- What is live can be closed over, if the innermost scope is not at a declaration. -/
theorem Live.framed (h : W.Live around fs) (hs : ∀ q ∈ around.head?, ∀ x ∈ namesBefore q, x ∈ q.1.names q.2) :
    W.Beyond around fs := by
  induction h with
  | top => exact .nil
  | block h hs' _ ih => exact .cons ⟨_, h, hs _ rfl⟩ (ih hs')
  | function h ho => exact .cons ⟨_, h, hs _ rfl⟩ ho

theorem Live.cons {p : LocalScope × Nat} (h : W.Live (p :: around) fs) :
    ∃ f gs, fs = f :: gs ∧ W f = some p ∧ W.Beyond around gs := by
  cases h with
  | block h hs ho => exact ⟨_, _, rfl, h, ho.framed hs⟩
  | function h ho => exact ⟨_, _, rfl, h, ho⟩

/-- The innermost frame gets on by a statement. -/
theorem Live.next {scope : LocalScope} {i : Nat} {f : FrameId} (h : W.Live ((scope, i) :: around) (f :: fs))
    (hf : f ∉ fs) :
    Live (Function.update W f (some (scope, i + 1))) ((scope, i + 1) :: around) (f :: fs) := by
  have hself : Function.update W f (some (scope, i + 1)) f = some (scope, i + 1) := Function.update_self ..
  have hother : ∀ g ∈ fs, ∀ e, W g = some e → Function.update W f (some (scope, i + 1)) g = some e :=
    fun g hg e he => by
    have hne : g ≠ f := fun hgf => hf (hgf ▸ hg)
    rwa [Function.update_of_ne hne]
  cases h with
  | block h hs ho => exact .block hself hs (ho.kept hother)
  | function h ho => exact .function hself (ho.kept hother)

/-! ## Looking a name up -/

/-- A frame that is closed over may have come further, but not to a declaration of the name. -/
theorem Beyond.holds (h : W.Beyond around fs) (hf : AccountsFor table W s) {x : String}
    (hu : ∀ q ∈ around, ∀ t ∈ q.1.body.drop (q.2 + 1), t.declared? ≠ some x) :
    List.Forall₂ (fun q f => s.holds x f = true ↔ x ∈ namesBefore q) around fs := by
  induction h with
  | nil => exact .nil
  | cons hq _ ih =>
    obtain ⟨i, hi, hx⟩ := hq
    refine .cons ?_ (ih fun q hq => hu q (List.mem_cons_of_mem _ hq))
    -- the frame may be past the function by now, but no declaration of the name lies in between
    rw [hf.names _ _ i hi x]
    exact ⟨LocalScope.names_of_not_declared (hu _ List.mem_cons_self), hx x⟩

/-- **Every frame around holds the name just if its scope declares it before.** -/
theorem Live.holds (h : W.Live around fs) (hf : AccountsFor table W s) {x : String} (hu : around.Unshadowed x)
    (hr : ∀ q ∈ around.head?, x ∈ namesBefore q → x ∈ q.1.names q.2) :
    List.Forall₂ (fun q f => s.holds x f = true ↔ x ∈ namesBefore q) around fs := by
  have head {scope i f} (h : W f = some (scope, i)) (hr : x ∈ namesBefore (scope, i) → x ∈ scope.names i) :
      s.holds x f = true ↔ x ∈ namesBefore (scope, i) := by
    rw [hf.names f scope i h x]
    exact ⟨LocalScope.names_mono (Nat.le_succ i), hr⟩
  induction h with
  | top => exact .nil
  | block h hs _ ih => exact .cons (head h (hr _ rfl)) (ih hu fun q hq => hs q hq x)
  | function h ho => exact .cons (head h (hr _ rfl)) (ho.holds hf hu)

/-- The first frame that holds the name is the one at the distance. -/
theorem find?_of_distance {x : String} (h : List.Forall₂ (fun q f => s.holds x f = true ↔ x ∈ namesBefore q) around fs)
    (g : FrameId) : (fs ++ [g]).find? (s.holds x) =
      (around.distance? x).elim ([g].find? (s.holds x)) fun d => (fs ++ [g])[d]?.filter (s.holds x) := by
  unfold Surroundings.distance?
  induction h with
  | nil => rfl
  | @cons q f around fs hq _ ih =>
    rw [List.findIdx?_cons, List.cons_append, List.find?_cons]
    by_cases hx : x ∈ namesBefore q
    · have hh := hq.2 hx
      simp [hx, hh, Option.filter]
    · have hh : s.holds x f = false := Bool.eq_false_iff.2 fun hh => hx (hq.1 hh)
      rw [hh, ih]
      simp only [hx, decide_false]
      cases List.findIdx? _ around <;> rfl

/-- **Distance and search lead to one frame.** -/
theorem Arrived.holder_eq_nearest {m : Machine} {o : Occurrence} (hf : AccountsFor table W m.store)
    (hb : m.bindings = table)
    (hp : Arrived W m.store around m.here) (ho : ScopedOccurrence.Findable table (around, o)) :
    m.holder? o.id o.name.lexeme = m.store.nearest? m.here o.name.lexeme := by
  obtain ⟨fs, hc, -, hlive⟩ := hp
  have hfind := find?_of_distance (hlive.holds hf ho.unshadowed ho.ready) Machine.globals
  have hd := ho.distance
  unfold Machine.holder? Store.nearest? Store.holderAt? Store.ancestor?
  rw [hb, hd, hc, hfind, hf.globals]
  cases around.distance? o.name.lexeme <;> rfl

/-! ## What keeps the names -/

/-- The names stay but in a frame that is not followed, and the values that come are searchable. -/
theorem AccountsFor.same (h : AccountsFor table W s) (hl : s.Later g s') (hg : ∀ f, g = some f → W f = none)
    (hv : ∀ f, ∀ c ∈ s'.cells f, Searchable table W s' c.2 ∨ c ∈ s.cells f) : AccountsFor table W s' where
  globals := (hl.chain _ (Store.lt_size_of_chain h.globals).1).trans h.globals
  free := h.free
  bounded f e hf := Nat.lt_of_lt_of_le (h.bounded f e hf) hl.size
  names f scope i hf x := by
    have hne : g ≠ some f := fun hgf => by
      rw [hg f hgf] at hf
      cases hf
    rw [hl.names f (h.bounded f _ hf) hne]
    exact h.names f scope i hf x
  searchable f c hc := (hv f c hc).elim id fun hc => (h.searchable f c hc).later (Onward.of_store W hl)

/-- Progress with a frame for a scope at its start. -/
def opened (W : Progress) (f : FrameId) (scope : LocalScope) : Progress := Function.update W f (some (scope, 0))

theorem opened_self (W : Progress) (f : FrameId) (scope : LocalScope) : W.opened f scope f = some (scope, 0) :=
  Function.update_self ..

theorem opened_of_lt {f f' : FrameId} (h : f' < f) (scope : LocalScope) : W.opened f scope f' = W f' :=
  Function.update_of_ne (Nat.ne_of_lt h) ..

theorem AccountsFor.opened_later (h : AccountsFor table W s) (scope : LocalScope) (hl : s.Later none s') :
    Onward none W s (W.opened s.frames.size scope) s' where
  size := hl.size
  chain := hl.chain
  same f e hf _ := by rw [opened_of_lt (h.bounded f e hf), hf]
  grows f sc i hf := ⟨i, Nat.le_refl i, by rw [opened_of_lt (h.bounded f _ hf), hf]⟩

/-- A new frame holds the parameters of its scope. -/
theorem AccountsFor.opened (h : AccountsFor table W s) {scope : LocalScope} (hl : s.Later none s')
    (hs : s.frames.size < s'.frames.size)
    (hx : ∀ x, s'.holds x s.frames.size = true ↔ x ∈ scope.params.map Token.lexeme)
    (hv : ∀ f, ∀ c ∈ s'.cells f, Searchable table W s c.2 ∨ c ∈ s.cells f) :
      AccountsFor table (W.opened s.frames.size scope) s' where
  globals := (hl.chain _ (Store.lt_size_of_chain h.globals).1).trans h.globals
  free := by rw [opened_of_lt (Store.lt_size_of_chain h.globals).1, h.free]
  bounded f e hf := by
    rcases eq_or_ne f s.frames.size with rfl | hne
    · exact hs
    · rw [Progress.opened, Function.update_of_ne hne] at hf
      exact Nat.lt_of_lt_of_le (h.bounded f e hf) hl.size
  names f sc i hf x := by
    rcases eq_or_ne f s.frames.size with rfl | hne
    · rw [opened_self] at hf
      cases hf
      rw [hx, LocalScope.names_zero]
    · rw [Progress.opened, Function.update_of_ne hne] at hf
      rw [hl.names f (h.bounded f _ hf) (by simp)]
      exact h.names f sc i hf x
  searchable f c hc := by
    have hsearchable := (hv f c hc).elim id (h.searchable f c)
    exact hsearchable.later (h.opened_later scope hl)

theorem Onward.next {scope : LocalScope} {i : Nat} (hW : W here = some (scope, i)) (hl : s.Later (some here) s') :
    Onward (some here) W s (Function.update W here (some (scope, i + 1))) s' := by
  refine ⟨hl.size, hl.chain, fun f e hf hne => ?_, fun f sc j hf => ?_⟩
  · have hne : f ≠ here := fun hfh => hne (by rw [hfh])
    rwa [Function.update_of_ne hne]
  · rcases eq_or_ne f here with rfl | hne
    · rw [hW] at hf
      cases hf
      exact ⟨i + 1, Nat.le_succ i, Function.update_self ..⟩
    · exact ⟨j, Nat.le_refl j, by rwa [Function.update_of_ne hne]⟩

/-- The current frame gets on past a statement, and holds what its scope then declares. -/
theorem AccountsFor.next (h : AccountsFor table W s) {scope : LocalScope} {i : Nat} (hW : W here = some (scope, i))
    (hl : s.Later (some here) s') (hx : ∀ x, s'.holds x here = true ↔ x ∈ scope.names (i + 1))
    (hv : ∀ f, ∀ c ∈ s'.cells f, Searchable table (Function.update W here (some (scope, i + 1))) s' c.2 ∨
      c ∈ s.cells f) :
    AccountsFor table (Function.update W here (some (scope, i + 1))) s' where
  globals := (hl.chain _ (Store.lt_size_of_chain h.globals).1).trans h.globals
  free := by
    have hne : Machine.globals ≠ here := by
      rintro rfl
      rw [h.free] at hW
      cases hW
    rw [Function.update_of_ne hne, h.free]
  bounded f e hf := by
    rcases eq_or_ne f here with rfl | hne
    · exact Nat.lt_of_lt_of_le (h.bounded _ _ hW) hl.size
    · rw [Function.update_of_ne hne] at hf
      exact Nat.lt_of_lt_of_le (h.bounded f e hf) hl.size
  names f sc j hf x := by
    rcases eq_or_ne f here with rfl | hne
    · rw [Function.update_self] at hf
      cases hf
      exact hx x
    · rw [Function.update_of_ne hne] at hf
      rw [hl.names f (h.bounded f _ hf) fun he => hne (Option.some.inj he).symm]
      exact h.names f sc j hf x
  searchable f c hc := (hv f c hc).elim id fun hc => (h.searchable f c hc).later (.next hW hl)

/-- **Past a statement**, with its name declared. -/
theorem Arrived.next {t : Stmt} (hf : AccountsFor table W s) (hp : Arrived W s around here) (hst : Stands around t)
    (hl : s.Later (some here) s') (hd : History.GainsOnly here t.declared? s s')
    (hv : ∀ W', Onward (some here) W s W' s' → Arrived W' s' around.next here →
      ∀ f, ∀ c ∈ s'.cells f, Searchable table W' s' c.2 ∨ c ∈ s.cells f) :
    ∃ W', Onward (some here) W s W' s' ∧ AccountsFor table W' s' ∧ Arrived W' s' around.next here := by
  obtain ⟨fs, hc, hn, hlive⟩ := hp
  have hc' : s'.chain here = fs ++ [Machine.globals] := (hl.chain here (lt_of_chain hc)).trans hc
  cases around with
  | nil =>
    cases hlive
    obtain ⟨-, rfl⟩ := Store.lt_size_of_chain hc
    have hlater : Onward (some Machine.globals) W s W s' := (Onward.of_store W hl).weaken _
    have hp' : Arrived W s' (Surroundings.next []) Machine.globals := ⟨[], hc', hn, .top⟩
    exact ⟨W, hlater, hf.same hl (fun f hg => by cases hg; exact hf.free) (hv W hlater hp'), hp'⟩
  | cons p outer =>
    obtain ⟨scope, i⟩ := p
    obtain ⟨f, gs, rfl, hW, -⟩ := hlive.cons
    obtain ⟨-, rfl⟩ := Store.lt_size_of_chain hc
    have hlater := Onward.next hW hl
    have hp' : Arrived _ s' (Surroundings.next ((scope, i) :: outer)) f := ⟨f :: gs, hc', hn, hlive.next hn⟩
    refine ⟨_, hlater, hf.next hW hl (fun x => ?_) (hv _ hlater hp'), hp'⟩
    have hx : scope.names (i + 1) = scope.names i ++ t.declared?.toList := hst.namesBefore (p := (scope, i)) rfl
    rw [hd x, hf.names f scope i hW x, hx, List.mem_append, Option.mem_toList]

end Progress
end Scriptlet
