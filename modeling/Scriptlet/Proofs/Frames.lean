import Mathlib
import Scriptlet.Proofs.Moments
import Scriptlet.Proofs.Scoping
import Scriptlet.Proofs.Steps

/-!
# Frames and scopes

At every moment of a run the frames around the current one are those of the scopes around what is run, each made by
entering its block or calling its function, and the global frame (`Moment.Scoped`).  This file has the invariant and
what keeps it: frames are only added, a frame that is there keeps its chain, and only a declaration adds a name to a
frame, to the current one (`Store.Later`).
-/
namespace Scriptlet

/-! ## Later stores -/

/-- What becomes of the frames of a store: all of them stay as they are, but for new values of their names and for new
names in the frame `g`. -/
structure Store.Later (g : Option FrameId) (s s' : Store) : Prop where
  size : s.frames.size ≤ s'.frames.size
  chain : ∀ f < s.frames.size, s'.chain f = s.chain f
  names : ∀ f < s.frames.size, g ≠ some f → ∀ x, s'.holds x f = s.holds x f
  grows : ∀ f < s.frames.size, ∀ x, s.holds x f = true → s'.holds x f = true

namespace Store

theorem cells_add (s : Store) (outer : Option FrameId) (f : FrameId) : (s.add outer).2.cells f = s.cells f := by
  unfold cells add
  rw [Array.getElem?_push]
  split
  · next hf => simp [hf]
  · rfl

theorem cells_of_le {s : Store} {f : FrameId} (h : s.frames.size ≤ f) : s.cells f = [] := by
  rw [cells, Array.getElem?_eq_none h]
  rfl

theorem holds_add (s : Store) (outer : Option FrameId) (x : String) (f : FrameId) :
    (s.add outer).2.holds x f = s.holds x f := by
  rw [holds, cells_add, holds]

theorem holds_define (s : Store) (f : FrameId) (name : String) (value : Value) (h : f < s.frames.size) (x : String)
    (g : FrameId) : (s.define f name value).holds x g = (decide (g = f ∧ x = name) || s.holds x g) := by
  unfold holds
  rw [cells_define s f name value g h]
  split
  · next hg => subst hg; rw [Cells.holds_put]; simp
  · next hg => simp [hg]

theorem holds_new (s : Store) (x : String) : s.holds x s.frames.size = false := by
  simp [holds, cells, Cells.holds]

theorem lt_of_holds {s : Store} {f : FrameId} {x : String} (h : s.holds x f = true) : f < s.frames.size := by
  by_contra hf
  rw [holds, cells, Array.getElem?_eq_none (Nat.le_of_not_lt hf)] at h
  cases h

/-- A new value for a name that is there adds no name. -/
theorem holds_define_held {s : Store} {f : FrameId} {name : String} (h : s.holds name f = true) (value : Value)
    (x : String) (g : FrameId) : (s.define f name value).holds x g = s.holds x g := by
  rw [holds_define s f name value (lt_of_holds h)]
  by_cases hgx : g = f ∧ x = name
  · rw [hgx.1, hgx.2, h, Bool.or_true]
  · simp [hgx]

theorem size_add (s : Store) (outer : Option FrameId) : (s.add outer).2.frames.size = s.frames.size + 1 := by
  simp [add]

theorem lt_size_of_chain {s : Store} {f g : FrameId} {gs : List FrameId} (h : s.chain f = g :: gs) :
    f < s.frames.size ∧ g = f := by
  unfold chain at h
  split at h
  · next hf =>
    cases h
    obtain ⟨hf, -⟩ := Array.getElem?_eq_some_iff.1 hf
    exact ⟨hf, rfl⟩
  · cases h

theorem mem_cells_add {s : Store} {outer : Option FrameId} {f : FrameId} {c : String × Value}
    (h : c ∈ (s.add outer).2.cells f) : c ∈ s.cells f := cells_add s outer f ▸ h

theorem chain_of_le {s : Store} {f : FrameId} (h : s.frames.size ≤ f) : s.chain f = [] := by
  rw [chain, Array.getElem?_eq_none h]

theorem chain_add_new (s : Store) (outer : FrameId) :
    (s.add (some outer)).2.chain s.frames.size = s.frames.size :: s.chain outer := s.chain_add_self (some outer)

/-- The frames around each frame, when one is added. -/
theorem chain_add_eq (s : Store) (outer f : FrameId) : (s.add (some outer)).2.chain f =
    if f < s.frames.size then s.chain f else if f = s.frames.size then f :: s.chain outer else [] := by
  split
  · next hf => exact s.chain_add _ f hf
  · next hf =>
    split
    · next hf =>
      subst hf
      exact s.chain_add_new outer
    · next hne =>
      refine chain_of_le ?_
      rw [size_add]
      exact Nat.lt_of_le_of_ne (Nat.le_of_not_lt hf) (Ne.symm hne)

theorem mem_put {name : String} {value : Value} {c : String × Value} :
    ∀ {cells : Cells}, c ∈ Cells.put name value cells → c.2 = value ∨ c ∈ cells
  | [], h => by
    rw [Cells.put, List.mem_singleton] at h
    exact .inl (by rw [h])
  | (k, old) :: cells, h => by
    unfold Cells.put at h
    split at h
    · rcases List.mem_cons.1 h with rfl | h
      · exact .inl rfl
      · exact .inr (List.mem_cons_of_mem _ h)
    · rcases List.mem_cons.1 h with rfl | h
      · exact .inr List.mem_cons_self
      · exact (mem_put h).imp id (List.mem_cons_of_mem _)

theorem mem_cells_define {s : Store} {f g : FrameId} {name : String} {value : Value} {c : String × Value}
    (h : c ∈ (s.define f name value).cells g) : c.2 = value ∨ c ∈ s.cells g := by
  by_cases hf : f < s.frames.size
  · rw [cells_define s f name value g hf] at h
    split at h
    · next hg => exact hg ▸ mem_put h
    · exact .inr h
  · rw [define, Array.getElem?_eq_none (Nat.le_of_not_lt hf)] at h
    exact .inr h

namespace Later

variable {g : Option FrameId} {s s' s'' : Store}

theorem refl (g : Option FrameId) (s : Store) : Later g s s :=
  ⟨Nat.le_refl _, fun _ _ => rfl, fun _ _ _ _ => rfl, fun _ _ _ => id⟩

theorem trans (h : Later g s s') (h' : Later g s' s'') : Later g s s'' where
  size := Nat.le_trans h.size h'.size
  chain f hf := (h'.chain f (Nat.lt_of_lt_of_le hf h.size)).trans (h.chain f hf)
  names f hf hg x := (h'.names f (Nat.lt_of_lt_of_le hf h.size) hg x).trans (h.names f hf hg x)
  grows f hf x hx := h'.grows f (Nat.lt_of_lt_of_le hf h.size) x (h.grows f hf x hx)

theorem weaken (h : Later none s s') (g : Option FrameId) : Later g s s' :=
  ⟨h.size, h.chain, fun f hf _ => h.names f hf (by simp), h.grows⟩

/-- Names added to a frame that was not there do not count. -/
theorem of_new {f : FrameId} (h : Later none s s') (h' : Later (some f) s' s'') (hf : s.frames.size ≤ f) :
    Later none s s'' where
  size := Nat.le_trans h.size h'.size
  chain g hg := (h'.chain g (Nat.lt_of_lt_of_le hg h.size)).trans (h.chain g hg)
  names g hg _ x := by
    rw [h'.names g (Nat.lt_of_lt_of_le hg h.size) (by rintro ⟨⟩; omega), h.names g hg (by simp)]
  grows g hg x hx := h'.grows g (Nat.lt_of_lt_of_le hg h.size) x (h.grows g hg x hx)

theorem add (s : Store) (outer : Option FrameId) : Later none s (s.add outer).2 where
  size := by rw [size_add]; exact Nat.le_succ _
  chain f hf := chain_add s outer f hf
  names f _ _ x := holds_add s outer x f
  grows f _ x hx := by rw [holds_add, hx]

theorem define (s : Store) (f : FrameId) (name : String) (value : Value) :
    Later (some f) s (s.define f name value) := by
  by_cases hf : f < s.frames.size
  · refine ⟨by simp, fun g _ => chain_define s f name value g, fun g _ hg x => ?_, fun g _ x hx => ?_⟩
    · have : g ≠ f := fun h => hg (by rw [h])
      simp [holds_define s f name value hf, this]
    · simp [holds_define s f name value hf, hx]
  · rw [Store.define, Array.getElem?_eq_none (Nat.le_of_not_lt hf)]
    exact refl _ s

/-- A new value for a name that is there. -/
theorem define_held {f : FrameId} {name : String} (h : s.holds name f = true) (value : Value) :
    Later none s (s.define f name value) := by
  have hd := define s f name value
  exact ⟨hd.size, hd.chain, fun g _ _ x => holds_define_held h value x g, hd.grows⟩

end Later

/-- The store with the parameters in the frame. -/
def boundIn (frame : FrameId) : List Token → List Value → Store → Store
  | p :: ps, v :: vs, s => boundIn frame ps vs (s.define frame p.lexeme v)
  | _, _, s => s

theorem later_boundIn (frame : FrameId) : ∀ (ps : List Token) (vs : List Value) (s : Store),
    Later (some frame) s (boundIn frame ps vs s)
  | [], _, s => Later.refl _ s
  | _ :: _, [], s => Later.refl _ s
  | p :: ps, v :: vs, s => (Later.define s frame p.lexeme v).trans (later_boundIn frame ps vs _)

theorem holds_boundIn (frame : FrameId) (x : String) : ∀ (ps : List Token) (vs : List Value) (s : Store),
    vs.length = ps.length → frame < s.frames.size →
      ((boundIn frame ps vs s).holds x frame = true ↔ x ∈ ps.map Token.lexeme ∨ s.holds x frame = true)
  | [], vs, s, hl, _ => by
    obtain rfl := List.length_eq_zero_iff.1 hl
    simp [boundIn]
  | p :: ps, [], s, hl, _ => by cases hl
  | p :: ps, v :: vs, s, hl, hf => by
    rw [boundIn, holds_boundIn frame x ps vs _ (by simpa using hl) (by simpa using hf), holds_define s frame _ _ hf]
    simp only [List.map_cons, List.mem_cons, Bool.or_eq_true, decide_eq_true_eq, true_and]
    rw [← or_assoc, or_comm (a := x ∈ ps.map Token.lexeme)]

theorem mem_cells_boundIn {frame g : FrameId} {c : String × Value} : ∀ (ps : List Token) (vs : List Value) (s : Store),
    c ∈ (boundIn frame ps vs s).cells g → c.2 ∈ vs ∨ c ∈ s.cells g
  | [], _, _, h => .inr h
  | _ :: _, [], _, h => .inr h
  | p :: ps, v :: vs, s, h => by
    rcases mem_cells_boundIn ps vs _ h with h | h
    · exact .inl (List.mem_cons_of_mem _ h)
    · rcases mem_cells_define h with h | h
      · exact .inl (by rw [h]; exact List.mem_cons_self)
      · exact .inr h

/-- Two stores get their parameters in step, if each definition leaves them so. -/
theorem boundIn_rel {S : Store → Store → Prop} {D : Token → Token → Prop} {V : Value → Value → Prop} {f f' : FrameId}
    (hd : ∀ {s s' t t' v v'}, S s s' → D t t' → V v v' → S (s.define f t.lexeme v) (s'.define f' t'.lexeme v')) :
    ∀ {ps ps' : List Token} {vs vs' : List Value}, List.Forall₂ D ps ps' → List.Forall₂ V vs vs' →
      ∀ {s s' : Store}, S s s' → S (s.boundIn f ps vs) (s'.boundIn f' ps' vs')
  | _, _, _, _, .nil, _, _, _, hs => hs
  | _, _, _, _, .cons _ _, .nil, _, _, hs => hs
  | _, _, _, _, .cons ht hts, .cons hv hvs, _, _, hs => boundIn_rel hd hts hvs (hd hs ht hv)

end Store

theorem bindParams_eq (frame : FrameId) : ∀ (ps : List Token) (vs : List Value) (m : Machine),
    bindParams frame ps vs m = (.value (), { m with store := m.store.boundIn frame ps vs })
  | [], _, _ => rfl
  | _ :: _, [], _ => rfl
  | p :: ps, v :: vs, m => bindParams_eq frame ps vs { m with store := m.store.define frame p.lexeme v }

/-- A call goes on in a new frame with the parameters. -/
theorem enter_call {α : Type} (frame : FrameId) (ps : List Token) (vs : List Value) (r : FrameId → Run α)
    (m : Machine) :
    (Run.newFrame frame >>= fun inner => bindParams inner ps vs >>= fun _ => r inner) m =
      r m.store.frames.size
        { m with store := (m.store.add (some frame)).2.boundIn m.store.frames.size ps vs } := by
  have hnew : Run.newFrame frame m = (.value m.store.frames.size, { m with store := (m.store.add (some frame)).2 }) :=
    rfl
  rw [Run.bind_of_value hnew, Run.bind_of_value (bindParams_eq ..)]

/-! ## The invariant -/

/-- The frame that the run makes at once, and the scope it makes it for. -/
def Moment.opens? (c : Moment) : Option (FrameId × LocalScope) :=
  match c.bound, c.task with
  | _, .exec (.block body) => some (c.machine.store.frames.size, .block body)
  | _ + 1, .call (.closure _ f _) _ => some (c.machine.store.frames.size, .function f)
  | _, _ => none

/-- What has happened so far: the moments, those of the latest text among them, and the places of the texts that have
been accepted. -/
structure History where
  Happened : Moment → Prop
  Current : Moment → Prop
  Known : ScopedOccurrence → Prop
  happened : ∀ {c : Moment}, Current c → Happened c
  enters : ∀ {c c' : Moment}, Current c → Enters c c' → Current c'

namespace History

variable (H : History)

/-- The frame was made by entering the block or calling the function. -/
def MadeFor (f : FrameId) (scope : LocalScope) : Prop := ∃ c, H.Happened c ∧ c.opens? = some (f, scope)

/-- A name that is not defined is named by a node that was visited where no frame holds it. -/
def Excused (f : Fault) : Prop := (∀ line x, f ≠ .run line (.undefinedVariable x)) ∨
  ∃ c o m, H.Current c ∧ c.Visits o m ∧ m.holder? o.id o.name.lexeme = none ∧ f = Store.undefined o.name

/-- The frames are those of the scopes and hold what these declare before the place. -/
def Framed (s : Store) (around : Surroundings) (fs : List FrameId) : Prop :=
  List.Forall₂ (fun p f => H.MadeFor f p.1 ∧ f < s.frames.size ∧ ∀ x ∈ namesBefore p, s.holds x f = true) around fs

/-- Where a function closes over the frame. -/
def Nested (s : Store) (around : Surroundings) (f : FrameId) : Prop :=
  ∃ fs, s.chain f = fs ++ [Machine.globals] ∧ H.Framed s around fs

/-- Where the frame is the current one: the innermost scope has come to its statement, and its frame holds just the
names declared until then. -/
def Placed (s : Store) : Surroundings → FrameId → Prop
  | [], f => s.chain f = [Machine.globals]
  | p :: outer, f => ∃ fs, s.chain f = f :: fs ++ [Machine.globals] ∧ H.MadeFor f p.1 ∧
      (∀ x, s.holds x f = true ↔ x ∈ p.1.names p.2) ∧ H.Framed s outer fs

/-- The function was declared in the scopes whose frames it closes over. -/
def Closed (s : Store) (f : Function) (frame : FrameId) : Prop :=
  ∃ around, H.Nested s around frame ∧ Stmt.ProperAll f.body ∧
    ∀ p ∈ Stmt.placesAll (some (.function f, around)) 0 f.body, H.Known p

def Fine (s : Store) : Value → Prop
  | .callable (.closure _ f frame) => H.Closed s f frame
  | _ => True

structure StoreFits (s : Store) : Prop where
  globals : s.chain Machine.globals = [Machine.globals]
  fine : ∀ f, ∀ c ∈ s.cells f, H.Fine s c.2

end History

/-- **The frames at a moment are those of the scopes around what is run.** -/
def Moment.Scoped (H : History) (c : Moment) : Prop :=
  H.StoreFits c.machine.store ∧
    match c.task with
    | .eval e => ∃ around, H.Placed c.machine.store around c.machine.here ∧ ∀ o ∈ e.occurrences, H.Known (around, o)
    | .evalAll es => ∃ around, H.Placed c.machine.store around c.machine.here ∧
        ∀ o ∈ Expr.occurrencesAll es, H.Known (around, o)
    | .exec s => ∃ around, H.Placed c.machine.store around c.machine.here ∧ Stands around s ∧ s.Proper ∧
        ∀ p ∈ s.places around, H.Known p
    | .execAll ss => ∃ (ground : Ground) (i : Nat), H.Placed c.machine.store (ground.around i) c.machine.here ∧
        ground.Has i ss ∧ Stmt.ProperAll ss ∧ ∀ p ∈ Stmt.placesAll ground i ss, H.Known p
    | .loop test body _ => ∃ around, H.Placed c.machine.store around c.machine.here ∧ Stands around (.while test body) ∧
        (Stmt.while test body).Proper ∧ ∀ p ∈ (Stmt.while test body).places around, H.Known p
    | .call f arguments => H.Fine c.machine.store (.callable f) ∧ (∀ v ∈ arguments, H.Fine c.machine.store v) ∧
        arguments.length = f.arity

namespace History

variable {H : History} {s s' : Store} {g : Option FrameId}

/-! ### What a later store keeps -/

theorem Framed.later {around : Surroundings} {fs : List FrameId} (h : H.Framed s around fs) (hl : s.Later g s') :
    H.Framed s' around fs :=
  List.Forall₂.imp
    (fun _ f ⟨hm, hf, hn⟩ => ⟨hm, Nat.lt_of_lt_of_le hf hl.size, fun x hx => hl.grows f hf x (hn x hx)⟩) h

theorem Nested.lt {around : Surroundings} {f : FrameId} (h : H.Nested s around f) : f < s.frames.size := by
  obtain ⟨fs, hc, -⟩ := h
  cases fs with
  | nil => exact (Store.lt_size_of_chain hc).1
  | cons g gs => exact (Store.lt_size_of_chain hc).1

theorem Nested.later {around : Surroundings} {f : FrameId} (h : H.Nested s around f) (hl : s.Later g s') :
    H.Nested s' around f := by
  have hf := h.lt
  obtain ⟨fs, hc, hfs⟩ := h
  exact ⟨fs, (hl.chain f hf).trans hc, hfs.later hl⟩

theorem Fine.later {v : Value} (h : H.Fine s v) (hl : s.Later g s') : H.Fine s' v := by
  unfold Fine at *
  split
  · obtain ⟨around, hn, hp⟩ := h
    exact ⟨around, hn.later hl, hp⟩
  · trivial

theorem Placed.lt {around : Surroundings} {f : FrameId} (h : H.Placed s around f) : f < s.frames.size := by
  cases around with
  | nil => exact (Store.lt_size_of_chain h).1
  | cons p outer =>
    obtain ⟨fs, hc, -⟩ := h
    exact (Store.lt_size_of_chain hc).1

/-- The current frame stays placed while its names stay the same. -/
theorem Placed.later {around : Surroundings} {f : FrameId} (h : H.Placed s around f) (hl : s.Later g s')
    (hn : ∀ x, s'.holds x f = s.holds x f) : H.Placed s' around f := by
  have hf := h.lt
  cases around with
  | nil => exact (hl.chain f hf).trans h
  | cons p outer =>
    obtain ⟨fs, hc, hm, hx, hfs⟩ := h
    exact ⟨fs, (hl.chain f hf).trans hc, hm, fun x => by rw [hn, hx], hfs.later hl⟩

/-- Past a statement, with its name declared. -/
theorem Placed.next {ground : Ground} {i : Nat} {t : Stmt} {ts : List Stmt} {f : FrameId}
    (h : H.Placed s (ground.around i) f) (hg : ground.Has i (t :: ts)) (hl : s.Later (some f) s')
    (hn : ∀ x, s'.holds x f = true ↔ s.holds x f = true ∨ t.declared? = some x) :
    H.Placed s' (ground.around (i + 1)) f := by
  have hf := h.lt
  cases ground with
  | none => exact (hl.chain f hf).trans h
  | some ground =>
    have hs := hg.stands.namesBefore (p := (ground.1, i)) rfl
    obtain ⟨fs, hc, hm, hx, hfs⟩ := h
    refine ⟨fs, (hl.chain f hf).trans hc, hm, fun x => ?_, hfs.later hl⟩
    rw [hn, hx]
    change _ ↔ x ∈ namesBefore (ground.1, i)
    rw [hs, List.mem_append, Option.mem_toList]

/-- The frames of what stands inside the statement, once its name is declared. -/
theorem Placed.nested {around : Surroundings} {f : FrameId} {t : Stmt} (h : H.Placed s around f) (hs : Stands around t)
    (hl : s.Later g s') (hn : ∀ x, t.declared? = some x → s'.holds x f = true) : H.Nested s' around f := by
  have hf := h.lt
  cases around with
  | nil => exact ⟨[], (hl.chain f hf).trans h, .nil⟩
  | cons p outer =>
    obtain ⟨fs, hc, hm, hx, hfs⟩ := h
    refine ⟨f :: fs, (hl.chain f hf).trans hc, .cons ⟨hm, Nat.lt_of_lt_of_le hf hl.size, fun x hxp => ?_⟩
      (hfs.later hl)⟩
    rw [hs.namesBefore rfl, List.mem_append, Option.mem_toList] at hxp
    exact hxp.elim (fun hxp => hl.grows f hf x ((hx x).2 hxp)) (hn x)

/-- A new frame inside the frames of a scope's surroundings is placed at the start of the scope. -/
theorem Nested.opened {around : Surroundings} {outer : FrameId} {scope : LocalScope} (h : H.Nested s around outer)
    (hm : H.MadeFor s.frames.size scope) (hl : (s.add (some outer)).2.Later g s')
    (hn : ∀ x, s'.holds x s.frames.size = true ↔ x ∈ scope.params.map Token.lexeme) :
    H.Placed s' ((scope, 0) :: around) s.frames.size := by
  obtain ⟨fs, hc, hfs⟩ := h
  refine ⟨fs, ?_, hm, fun x => ?_, (hfs.later (.add s (some outer))).later hl⟩
  · rw [hl.chain _ (by rw [Store.size_add]; exact Nat.lt_succ_self _)]
    have := s.chain_add_self (some outer)
    simp only [Option.map_some, Option.getD_some, hc] at this
    exact this
  · rw [hn, LocalScope.names_zero]

theorem StoreFits.lt (h : H.StoreFits s) : Machine.globals < s.frames.size := (Store.lt_size_of_chain h.globals).1

/-- A later store whose values are fine. -/
theorem StoreFits.later (h : H.StoreFits s) (hl : s.Later g s')
    (hv : ∀ f, ∀ c ∈ s'.cells f, H.Fine s' c.2 ∨ c ∈ s.cells f) : H.StoreFits s' where
  globals := (hl.chain _ h.lt).trans h.globals
  fine f c hc := (hv f c hc).elim id fun hc => (h.fine f c hc).later hl

theorem StoreFits.add (h : H.StoreFits s) (outer : Option FrameId) : H.StoreFits (s.add outer).2 :=
  h.later (.add s outer) fun _ _ hc => .inr (Store.mem_cells_add hc)

theorem StoreFits.define (h : H.StoreFits s) (f : FrameId) (name : String) {v : Value} (hv : H.Fine s v) :
    H.StoreFits (s.define f name v) := by
  have hl := Store.Later.define s f name v
  refine h.later hl fun g c hc => ?_
  rcases Store.mem_cells_define hc with hc | hc
  · exact .inl (by rw [hc]; exact hv.later hl)
  · exact .inr hc

end History
end Scriptlet
