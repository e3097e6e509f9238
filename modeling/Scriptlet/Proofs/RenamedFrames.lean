import Mathlib
import Scriptlet.Proofs.Coupling
import Scriptlet.Proofs.Renaming

/-!
# Machines of renamed programs

The machines of a program and of the renamed one differ in the names of the frames that are made for the chosen scope,
and in the functions in their frames (`Machine.Renamed`).  Each frame has a depth, as each place of the program has: it
tells how many frames out the one of the chosen scope is (`Depths.Measure`).

So an occurrence finds the same cell on both machines (`Machine.Renamed.holder?`): its token is renamed just if its
distance leads to a frame in which the name is.
-/
namespace Scriptlet

/-! ## Frames with depths -/

/-- The depth of every frame that has been made. -/
abbrev Depths := FrameId → Option Depth

/-- Frames that have been made keep their depths. -/
def Depths.Le (W W' : Depths) : Prop := ∀ f k, W f = some k → W' f = some k

/-- The frames have depths.  From a frame at a depth, the frame of the chosen scope is as many steps out as the depth
tells, and no other frame around it is one of that scope. -/
structure Depths.Measure (W : Depths) (s : Store) : Prop where
  globals : W Machine.globals = some .outside
  known : ∀ f, f < s.frames.size → ∃ k, W f = some k
  bounded : ∀ f k, W f = some k → f < s.frames.size
  around : ∀ f, ∀ g ∈ s.chain f, g < s.frames.size
  depth : ∀ f k, W f = some k → ∀ n g, (s.chain f)[n]? = some g → (W g = some (.inside 0) ↔ k = .inside n)

/-- A name in a frame at the depth. -/
def Renaming.key (r : Renaming) (k : Depth) (x : String) : String := if k = .inside 0 then r.name x else x

/-- The names stand for each other in a frame at the depth. -/
def Renaming.Names (r : Renaming) (k : Depth) (x x' : String) : Prop := x' = r.key k x ∧ (k = .inside 0 → x ≠ r.new)

/-- The second function is the first with the variable renamed; it is declared at the first depth, and its body is at
the second. -/
structure Function.Renamed (r : Renaming) (k k' : Depth) (f f' : Function) : Prop where
  opens : k.Encloses k'
  name : f'.name = f.name
  params : f'.params = f.params.map (r.declared k')
  spared : ∀ p ∈ f.params, p.lexeme ≠ r.new
  body : Stmt.AllRenamed r k' f.body f'.body

section

variable (r : Renaming) (W : Depths)

/-- Functions that were declared in one frame, the second one renamed from the depth of that frame on. -/
def Closures.renamed : Closures where
  Rel f frame f' frame' := frame = frame' ∧ ∃ k k', W frame = some k ∧ f.Renamed r k k' f'
  name := by
    rintro f frame f' frame' ⟨-, k, k', -, h⟩
    rw [h.name]
  arity := by
    rintro f frame f' frame' ⟨-, k, k', -, h⟩
    rw [h.params, List.length_map]

abbrev Value.Renamed : Value → Value → Prop := Value.Paired (.renamed r W)

/-- The same frames around each other, with the same cells but for the names. -/
structure Store.Renamed (s s' : Store) : Prop where
  measure : W.Measure s
  size : s'.frames.size = s.frames.size
  chain : ∀ f, s'.chain f = s.chain f
  cells : ∀ f k, W f = some k → Cells.Paired (r.Names k) (Value.Renamed r W) (s.cells f) (s'.cells f)

/-- Machines that differ in names and functions only. -/
abbrev Machine.Renamed : Machine → Machine → Prop := Machine.Paired (Store.Renamed r W) r.table r.table

end

variable {r : Renaming} {W W' : Depths} {k k' : Depth}

theorem Depths.Le.refl (W : Depths) : W.Le W := fun _ _ h => h

theorem Depths.Le.trans {W'' : Depths} (h : W.Le W') (h' : W'.Le W'') : W.Le W'' := fun f k hf => h' f k (h f k hf)

theorem Value.Renamed.le {v v' : Value} (h : v.Renamed r W v') (hle : W.Le W') : v.Renamed r W' v' := by
  refine Value.Paired.imp h fun hf => ?_
  obtain ⟨hframe, k, k', hk, hf⟩ := hf
  exact ⟨hframe, k, k', hle _ _ hk, hf⟩

/-! ## Frames -/

/-- The depths with a new frame. -/
def Depths.opened (W : Depths) (f : FrameId) (k : Depth) : Depths := Function.update W f (some k)

theorem Depths.opened_self (W : Depths) (f : FrameId) (k : Depth) : W.opened f k f = some k := Function.update_self ..

theorem Depths.opened_of_lt {f g : FrameId} (h : g < f) (k : Depth) : W.opened f k g = W g :=
  Function.update_of_ne (Nat.ne_of_lt h) ..

namespace Depths.Measure

variable {s : Store}

theorem le_opened (h : W.Measure s) (k : Depth) : W.Le (W.opened s.frames.size k) := fun f kf hf => by
  rwa [opened_of_lt (h.bounded f kf hf)]

/-- **A new frame** has the depth that its scope has. -/
theorem add (h : W.Measure s) {outer : FrameId} (ho : W outer = some k) (hk : k.Encloses k') :
    (W.opened s.frames.size k').Measure (s.add (some outer)).2 where
  globals := h.le_opened k' _ _ h.globals
  known f hf := by
    rw [Store.size_add] at hf
    rcases Nat.lt_succ_iff_lt_or_eq.1 hf with hf | rfl
    · obtain ⟨kf, hkf⟩ := h.known f hf
      exact ⟨kf, h.le_opened k' f kf hkf⟩
    · exact ⟨k', W.opened_self _ k'⟩
  bounded f kf hf := by
    rw [Store.size_add]
    rcases eq_or_ne f s.frames.size with rfl | hne
    · exact Nat.lt_succ_self _
    · rw [opened, Function.update_of_ne hne] at hf
      exact Nat.lt_succ_of_lt (h.bounded f kf hf)
  around f g hg := by
    rw [Store.size_add]
    rw [Store.chain_add_eq] at hg
    split at hg
    · exact Nat.lt_succ_of_lt (h.around f g hg)
    · split at hg
      · next hf =>
        rcases List.mem_cons.1 hg with rfl | hg
        · rw [hf]
          exact Nat.lt_succ_self _
        · exact Nat.lt_succ_of_lt (h.around outer g hg)
      · cases hg
  depth f kf hf n g hg := by
    have old : ∀ {f kf n}, W f = some kf → (s.chain f)[n]? = some g →
        (W.opened s.frames.size k' g = some (.inside 0) ↔ kf = .inside n) := fun {f kf n} hf hg => by
      rw [opened_of_lt (h.around f g (List.mem_of_getElem? hg))]
      exact h.depth f kf hf n g hg
    rw [Store.chain_add_eq] at hg
    split at hg
    · next hlt =>
      rw [opened_of_lt hlt] at hf
      exact old hf hg
    · split at hg
      · next he =>
        -- the new frame itself, and the frames around it
        subst he
        cases (W.opened_self _ k').symm.trans hf
        cases n with
        | zero =>
          cases hg
          rw [opened_self, Option.some.injEq]
        | succ n => rw [hk.inside_succ, old ho hg]
      · cases hg

theorem define (h : W.Measure s) (f : FrameId) (x : String) (v : Value) : W.Measure (s.define f x v) where
  globals := h.globals
  known g hg := h.known g (by simpa using hg)
  bounded g k hg := by simpa using h.bounded g k hg
  around g g' hg' := by simpa using h.around g g' (by simpa using hg')
  depth g k hg n g' hg' := h.depth g k hg n g' (by simpa using hg')

end Depths.Measure

theorem Renaming.key_inj {x y : String} (hx : k = .inside 0 → x ≠ r.new) (hy : k = .inside 0 → y ≠ r.new) :
    r.key k x = r.key k y ↔ x = y := by
  unfold key
  split
  · next hk => exact name_inj (hx hk) (hy hk)
  · exact Iff.rfl

theorem Renaming.declared_lexeme (r : Renaming) (k : Depth) (t : Token) :
    (r.declared k t).lexeme = r.key k t.lexeme := by
  unfold declared key
  split <;> rfl

theorem Renaming.biUnique_names (r : Renaming) (k : Depth) : Relator.BiUnique (r.Names k) := by
  constructor
  · rintro x y _ ⟨rfl, hx⟩ ⟨he, hy⟩
    exact (key_inj hx hy).1 he
  · rintro x _ _ ⟨rfl, -⟩ ⟨rfl, -⟩
    rfl

theorem Renaming.names_key {x : String} (hx : x ≠ r.new) : r.Names k x (r.key k x) := ⟨rfl, fun _ => hx⟩

theorem Renaming.names_declared {t : Token} (ht : t.lexeme ≠ r.new) : r.Names k t.lexeme (r.declared k t).lexeme :=
  ⟨r.declared_lexeme k t, fun _ => ht⟩

namespace Store.Renamed

variable {s s' : Store}

theorem define (h : s.Renamed r W s') {f : FrameId} (hf : W f = some k) {x x' : String} (hx : r.Names k x x')
    {v v' : Value} (hv : v.Renamed r W v') : (s.define f x v).Renamed r W (s'.define f x' v') where
  measure := h.measure.define f x v
  size := by simp [h.size]
  chain g := by simp [h.chain]
  cells g kg hg := by
    have hlt := h.measure.bounded f k hf
    rw [Store.cells_define s f x v g hlt, Store.cells_define s' f _ v' g (h.size.symm ▸ hlt)]
    by_cases hgf : g = f
    · subst hgf
      cases hg.symm.trans hf
      rw [if_pos rfl, if_pos rfl]
      exact Cells.Paired.put (h.cells g _ hg) (r.biUnique_names _) hx hv
    · rw [if_neg hgf, if_neg hgf]
      exact h.cells g kg hg

theorem add (h : s.Renamed r W s') {outer : FrameId} (ho : W outer = some k) (hk : k.Encloses k') :
    (s.add (some outer)).2.Renamed r (W.opened s.frames.size k') (s'.add (some outer)).2 where
  measure := h.measure.add ho hk
  size := by rw [Store.size_add, Store.size_add, h.size]
  chain f := by rw [Store.chain_add_eq, Store.chain_add_eq, h.size, h.chain, h.chain]
  cells f kf hf := by
    rw [Store.cells_add, Store.cells_add]
    by_cases hlt : f < s.frames.size
    · rw [Depths.opened_of_lt hlt] at hf
      exact (h.cells f kf hf).imp fun _ _ hc => ⟨hc.1, Value.Renamed.le hc.2 (h.measure.le_opened k')⟩
    · have hle := Nat.le_of_not_lt hlt
      rw [Store.cells_of_le hle, Store.cells_of_le (h.size ▸ hle)]
      exact .nil

theorem holds (h : s.Renamed r W s') {f : FrameId} (hf : W f = some k) {x : String} (hx : x ≠ r.new) :
    s'.holds (r.key k x) f = s.holds x f :=
  (Cells.Paired.holds (h.cells f k hf) (r.biUnique_names k) (Renaming.names_key hx)).symm

end Store.Renamed

/-! ## Looking a name up -/

namespace Machine.Renamed

variable {m m' : Machine} {t : Token}

/-- A name is renamed in a frame just if the frame is the one the depth tells of. -/
theorem occurrence_lexeme (h : m.Renamed r W m') (hk : W m.here = some k) {id d : Nat} (hd : r.table[id]? = some d)
    {f : FrameId} {kf : Depth} (hf : (m.store.chain m.here)[d]? = some f) (hkf : W f = some kf) :
    (r.occurrence k id t).lexeme = r.key kf t.lexeme := by
  have hlevel := h.store.measure.depth _ k hk d f hf
  rw [hkf, Option.some.injEq] at hlevel
  have hleads : r.Leads k id ↔ kf = .inside 0 := by
    rw [hlevel]
    constructor
    · rintro ⟨n, rfl, hn⟩
      cases hn.symm.trans hd
      rfl
    · rintro rfl
      exact ⟨d, rfl, hd⟩
  unfold Renaming.occurrence Renaming.key
  by_cases hl : r.Leads k id
  · rw [if_pos hl, if_pos (hleads.1 hl)]
    rfl
  · rw [if_neg hl, if_neg fun h0 => hl (hleads.2 h0)]

/-- No frame around the global one is renamed. -/
theorem key_global (h : m.Renamed r W m') {f : FrameId} {kf : Depth} (hf : f ∈ m.store.chain globals)
    (hkf : W f = some kf) (x : String) : r.key kf x = x := by
  obtain ⟨n, hn⟩ := List.mem_iff_getElem?.1 hf
  have hlevel := h.store.measure.depth _ _ h.store.measure.globals n f hn
  rw [hkf, Option.some.injEq] at hlevel
  exact if_neg fun h0 => nomatch hlevel.1 h0

/-- **The occurrence finds the same frame**, and has the name that it has in that frame. -/
theorem holder? (h : m.Renamed r W m') (hh : m.here = m'.here) (hk : W m.here = some k) (ht : t.lexeme ≠ r.new)
    (id : Nat) : m'.holder? id (r.occurrence k id t).lexeme = m.holder? id t.lexeme ∧
      ∀ f, m.holder? id t.lexeme = some f → ∃ kf, W f = some kf ∧ (r.occurrence k id t).lexeme = r.key kf t.lexeme := by
  unfold Machine.holder? Store.holderAt? Store.nearest? Store.ancestor?
  rw [h.left, h.right, ← hh, h.store.chain, h.store.chain]
  cases hd : r.table[id]? with
  | some d =>
    dsimp only
    cases hf : (m.store.chain m.here)[d]? with
    | none => exact ⟨rfl, fun f hf => by cases hf⟩
    | some f =>
      obtain ⟨kf, hkf⟩ := h.store.measure.known f (h.store.measure.around _ f (List.mem_of_getElem? hf))
      have hkey := occurrence_lexeme (t := t) h hk hd hf hkf
      refine ⟨?_, fun g hg => ?_⟩
      · rw [hkey, Option.filter_some, Option.filter_some, h.store.holds hkf ht]
      · obtain ⟨hg, -⟩ := Option.filter_eq_some_iff.1 hg
        cases hg
        exact ⟨kf, hkf, hkey⟩
  | none =>
    have hleads : ¬ r.Leads k id := by
      rintro ⟨n, -, hn⟩
      cases hn.symm.trans hd
    rw [Renaming.occurrence, if_neg hleads]
    have hknown : ∀ f ∈ m.store.chain globals, ∃ kf, W f = some kf ∧ r.key kf t.lexeme = t.lexeme := fun f hf => by
      obtain ⟨kf, hkf⟩ := h.store.measure.known f (h.store.measure.around _ f hf)
      exact ⟨kf, hkf, key_global h hf hkf _⟩
    dsimp only
    refine ⟨List.find?_congr fun f hf => ?_, fun f hf => ?_⟩
    · obtain ⟨kf, hkf, hkey⟩ := hknown f hf
      rw [← h.store.holds hkf ht, hkey]
    · obtain ⟨kf, hkf, hkey⟩ := hknown f (List.mem_of_find?_eq_some hf)
      exact ⟨kf, hkf, hkey.symm⟩

/-- So the occurrences lead to cells that stand for each other. -/
theorem holder_rel {o o' : Occurrence} (h : m.Renamed r W m') (hh : m.here = m'.here) (hk : W m.here = some k)
    (hid : o'.id = o.id) (hname : o'.name = r.occurrence k o.id o.name) (ho : o.name.lexeme ≠ r.new) :
    Option.Rel (fun f f' => f = f' ∧ ∃ kf, W f = some kf ∧ r.Names kf o.name.lexeme o'.name.lexeme)
      (m.holder? o.id o.name.lexeme) (m'.holder? o'.id o'.name.lexeme) := by
  obtain ⟨hholder, hkey⟩ := holder? h hh hk ho o.id
  rw [hid, hname, hholder]
  cases hf : m.holder? o.id o.name.lexeme with
  | none => exact .none
  | some f =>
    obtain ⟨kf, hkf, hlex⟩ := hkey f hf
    exact .some ⟨rfl, kf, hkf, hlex, fun _ => ho⟩

end Machine.Renamed

end Scriptlet
