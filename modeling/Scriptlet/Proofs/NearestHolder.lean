import Mathlib
import Scriptlet.Proofs.Assignment

/-!
# The nearest holder

Two ways lead to a variable: from frame to frame outward until one holds the name (`get`, `assign`), or so many links
out at once and no further (`getAt`, `assignAt`).  Along the links of a store made frame by frame, the search is a
recursion (`Built.get_eq`, `Built.assign_eq`).  Both ways end in one frame if the distance is the least one at which
the name is held (`Built.holders_of_isLeast`); at a distance at which it is not held, an access fails
(`Built.undefined_at`), and behind the last frame no frame is asked (`distance_access_matches_search`).
-/
namespace Scriptlet
namespace Store

/-- The frame so many links out is there and holds the name. -/
def HeldAt (s : Store) (links : Links) (f : FrameId) (x : String) (d : Nat) : Prop :=
  ∃ h, links.out d f = some h ∧ s.holds x h = true

variable {s : Store} {links : Links} {f : FrameId} {x : String} {d : Nat}

namespace Built

/-! ## The search, link by link -/

/-- One step of the search: the frame itself, or else what is found from the one it was put inside. -/
theorem nearest?_eq (hs : s.Built links) (hf : f < s.frames.size) (x : String) :
    s.nearest? f x = if s.holds x f = true then some f else links[f]?.join.bind fun g => s.nearest? g x := by
  rw [nearest?, hs.chain_eq hf, List.find?_cons]
  cases s.holds x f with
  | true => rfl
  | false => cases links[f]?.join <;> rfl

/-- **A name is looked for here, then outward.** -/
theorem get_eq (hs : s.Built links) (hf : f < s.frames.size) (name : Token) :
    s.get f name = ((s.cells f).lookup name.lexeme).elim
      (links[f]?.join.elim (.error (undefined name)) fun g => s.get g name) .ok := by
  rw [get, hs.nearest?_eq hf]
  cases hl : (s.cells f).lookup name.lexeme with
  | some w =>
    rw [if_pos (holds_iff_lookup.2 ⟨w, hl⟩), read, Option.bind_some, hl]
    rfl
  | none =>
    have hx : ¬ s.holds name.lexeme f = true := fun hx => by
      obtain ⟨w, hw⟩ := holds_iff_lookup.1 hx
      rw [hl] at hw
      cases hw
    rw [if_neg hx]
    cases links[f]?.join <;> rfl

/-- **A name is assigned to here if it is held here, else outward.** -/
theorem assign_eq (hs : s.Built links) (hf : f < s.frames.size) (name : Token) (v : Value) :
    s.assign f name v = if s.holds name.lexeme f = true then .ok (s.define f name.lexeme v) else
      links[f]?.join.elim (.error (undefined name)) fun g => s.assign g name v := by
  rw [assign, hs.nearest?_eq hf]
  split
  · rfl
  · cases links[f]?.join <;> rfl

/-! ## Where the name is held -/

/-- **The search ends at the least distance** at which the name is held. -/
theorem holders_of_isLeast (hs : s.Built links) (hf : f < s.frames.size) (hd : IsLeast {d | s.HeldAt links f x d} d) :
    ∃ h, links.out d f = some h ∧ s.holds x h = true ∧ s.nearest? f x = some h ∧ s.holderAt? f d x = some h := by
  obtain ⟨⟨h, hout, hx⟩, hleast⟩ := hd
  refine ⟨h, hout, hx, (hs.nearest?_eq_some_iff hf).2 ⟨d, hout, hx, fun e he g hg => ?_⟩,
    (hs.holderAt?_eq_some_iff hf).2 ⟨hout, hx⟩⟩
  -- A nearer frame that held the name would be at a smaller distance.
  by_contra hheld
  have hde : d ≤ e := hleast ⟨g, hg, eq_true_of_ne_false hheld⟩
  exact Nat.not_lt.2 hde he

theorem holderAt?_of_not_heldAt (hs : s.Built links) (hf : f < s.frames.size) (hd : ¬ s.HeldAt links f x d) :
    s.holderAt? f d x = none := by
  by_contra hne
  obtain ⟨h, hh⟩ := Option.ne_none_iff_exists'.1 hne
  exact hd ⟨h, (hs.holderAt?_eq_some_iff hf).1 hh⟩

/-- **An access by a distance does not search**: it fails if the name is not held right there. -/
theorem undefined_at (hs : s.Built links) (hf : f < s.frames.size) {name : Token}
    (hd : ¬ s.HeldAt links f name.lexeme d) (v : Value) :
    s.getAt f d name = .error (undefined name) ∧ s.assignAt f d name v = .error (undefined name) := by
  rw [getAt, assignAt, hs.holderAt?_of_not_heldAt hf hd]
  exact ⟨rfl, rfl⟩

/-- A search fails if the name is held at no distance. -/
theorem undefined_outward (hs : s.Built links) (hf : f < s.frames.size) {name : Token}
    (hn : ∀ d, ¬ s.HeldAt links f name.lexeme d) (v : Value) :
    s.get f name = .error (undefined name) ∧ s.assign f name v = .error (undefined name) := by
  have hnone : s.nearest? f name.lexeme = none := (hs.nearest?_eq_none_iff hf).2 fun d g hg => by
    by_contra hheld
    exact hn d ⟨g, hg, eq_true_of_ne_false hheld⟩
  rw [get, assign, hnone]
  exact ⟨rfl, rfl⟩

/-! ## The end of the chain -/

/-- There are as many frames to come to as the chain has. -/
theorem out_eq_none_iff (hs : s.Built links) (hf : f < s.frames.size) :
    links.out d f = none ↔ (s.chain f).length ≤ d := by
  rw [← hs.ancestor?_eq d f hf, ancestor?, List.getElem?_eq_none_iff]

theorem not_heldAt_of_end (hs : s.Built links) (hf : f < s.frames.size) (hd : (s.chain f).length ≤ d) (t : Store)
    (x : String) : ¬ t.HeldAt links f x d := by
  rintro ⟨h, hout, -⟩
  rw [(hs.out_eq_none_iff hf).2 hd] at hout
  cases hout

end Built
end Store

/-- An occurrence bound to a distance at which its name is not held ends the run there, with the machine as it was. -/
theorem Run.undefined_of_holderAt? {m : Machine} {id d : Nat} {name : Token} (hb : m.bindings[id]? = some d)
    (hn : m.store.holderAt? m.here d name.lexeme = none) (v : Value) :
    Run.lookUp id name m = (.failed (Store.undefined name), m) ∧
    Run.assign id name v m = (.failed (Store.undefined name), m) := by
  have hh : m.holder? id name.lexeme = none := by rw [Machine.holder?, hb, ← hn]
  unfold Run.lookUp Run.assign
  rw [hh]
  exact ⟨rfl, rfl⟩

namespace Store

/-- **A distance leads where the search leads, if it is the least one that leads to the name.**  In a store made frame
by frame, from any of its frames: a step of the search looks here, then from the frame around, and a distance is so
many links.  If `d` is the least distance at which the name is held, both reads give the value in that frame, and both
assignments succeed and leave the same store, in which that one cell is written.  If the name is held nowhere outward,
both searches and the accesses by every distance fail with one fault.  A distance that is not less than the length of
the chain leads to no frame: reads and assignments fail whatever the frames hold, and a run that makes one stops with
all its frames as they were. -/
theorem distance_access_matches_search {s : Store} {links : Links} (hs : s.Built links) {f : FrameId}
    (hf : f < s.frames.size) (name : Token) (v : Value) :
    (s.get f name = ((s.cells f).lookup name.lexeme).elim
        (links[f]?.join.elim (.error (undefined name)) fun g => s.get g name) .ok ∧
      s.assign f name v = (if s.holds name.lexeme f = true then .ok (s.define f name.lexeme v) else
        links[f]?.join.elim (.error (undefined name)) fun g => s.assign g name v) ∧
      ∀ d, s.ancestor? f d = links.out d f) ∧
    (∀ d, IsLeast {d | s.HeldAt links f name.lexeme d} d →
      ∃ h w s', links.out d f = some h ∧ (s.cells h).lookup name.lexeme = some w ∧
        s.getAt f d name = .ok w ∧ s.get f name = .ok w ∧
        s.assignAt f d name v = .ok s' ∧ s.assign f name v = .ok s' ∧ s.Wrote links h name.lexeme v s') ∧
    ((∀ d, ¬ s.HeldAt links f name.lexeme d) →
      (s.get f name = .error (undefined name) ∧ s.assign f name v = .error (undefined name)) ∧
      ∀ d, s.getAt f d name = .error (undefined name) ∧ s.assignAt f d name v = .error (undefined name)) ∧
    ∀ d, (links.out d f = none ↔ (s.chain f).length ≤ d) ∧
      ((s.chain f).length ≤ d → ∀ t : Store, t.Built links →
        (t.getAt f d name = .error (undefined name) ∧ t.assignAt f d name v = .error (undefined name)) ∧
        ∀ (m : Machine) (id : Nat), m.store = t → m.here = f → m.bindings[id]? = some d →
          Run.lookUp id name m = (.failed (undefined name), m) ∧
          Run.assign id name v m = (.failed (undefined name), m)) := by
  refine ⟨⟨hs.get_eq hf name, hs.assign_eq hf name v, fun d => hs.ancestor?_eq d f hf⟩, fun d hd => ?_, fun hn => ?_,
    fun d => ⟨hs.out_eq_none_iff hf, fun hd t ht => ?_⟩⟩
  · obtain ⟨h, hout, hx, hnearest, hat⟩ := hs.holders_of_isLeast hf hd
    obtain ⟨w, hw⟩ := holds_iff_lookup.1 hx
    have hread : s.read (some h) name = .ok w := by rw [read, Option.bind_some, hw]
    refine ⟨h, w, s.define h name.lexeme v, hout, hw, ?_, ?_, ?_, ?_, hs.wrote hx v⟩
    · rw [getAt, hat, hread]
    · rw [get, hnearest, hread]
    · rw [assignAt, hat, write]
    · rw [assign, hnearest, write]
  · exact ⟨hs.undefined_outward hf hn v, fun d => hs.undefined_at hf (hn d) v⟩
  · -- The other store has the same frames, with the same links.
    have hft : f < t.frames.size := by rwa [ht.size, ← hs.size]
    have hend := hs.not_heldAt_of_end hf hd t name.lexeme
    refine ⟨ht.undefined_at hft hend v, ?_⟩
    rintro m id rfl rfl hb
    exact Run.undefined_of_holderAt? hb (ht.holderAt?_of_not_heldAt hft hend) v

theorem least_distance_in_family : IsLeast {d | family.HeldAt [none, some 0, some 1, some 0] 2 "x" d} 1 := by
  refine ⟨⟨1, rfl, rfl⟩, ?_⟩
  rintro (_ | d) ⟨h, hout, hx⟩
  · cases hout
    cases hx
  · exact Nat.le_add_left 1 d

theorem no_distance_in_family (d : Nat) : ¬ family.HeldAt [none, some 0, some 1, some 0] 2 "y" d := by
  rintro ⟨h, -, hy⟩
  have hnone : ∀ g < 4, family.holds "y" g = false := by decide
  rw [hnone h (lt_of_holds hy)] at hy
  cases hy

/-- A machine in the innermost frame of the family, with one occurrence bound to a distance past the outermost. -/
def lost : Machine :=
  { Machine.start .unlimited fun _ => .ofBits 0 with store := family, here := 2, bindings := .ofList [(0, 3)] }

theorem shadowing_frame_is_nearest :
    IsLeast {d | family.HeldAt [none, some 0, some 1, some 0] 2 "x" d} 1 ∧
    (∃ h w s', Links.out [none, some 0, some 1, some 0] 1 2 = some h ∧ (family.cells h).lookup "x" = some w ∧
      family.getAt 2 1 ⟨.identifier, "x", 7⟩ = .ok w ∧ family.get 2 ⟨.identifier, "x", 7⟩ = .ok w ∧
      family.assignAt 2 1 ⟨.identifier, "x", 7⟩ .nil = .ok s' ∧ family.assign 2 ⟨.identifier, "x", 7⟩ .nil = .ok s' ∧
      family.Wrote [none, some 0, some 1, some 0] h "x" .nil s') ∧
    (∀ d, family.getAt 2 d ⟨.identifier, "y", 8⟩ = .error (.run 8 (.undefinedVariable "y")) ∧
      family.assignAt 2 d ⟨.identifier, "y", 8⟩ .nil = .error (.run 8 (.undefinedVariable "y"))) ∧
    Run.lookUp 0 ⟨.identifier, "x", 9⟩ lost = (.failed (.run 9 (.undefinedVariable "x")), lost) ∧
    Run.assign 0 ⟨.identifier, "x", 9⟩ .nil lost = (.failed (.run 9 (.undefinedVariable "x")), lost) := by
  have hf : 2 < family.frames.size := by decide
  obtain ⟨-, hleast, -⟩ := distance_access_matches_search family_built hf ⟨.identifier, "x", 7⟩ .nil
  obtain ⟨-, -, hnone, -⟩ := distance_access_matches_search family_built hf ⟨.identifier, "y", 8⟩ .nil
  obtain ⟨-, -, -, hend⟩ := distance_access_matches_search family_built hf ⟨.identifier, "x", 9⟩ .nil
  refine ⟨least_distance_in_family, hleast 1 least_distance_in_family, (hnone no_distance_in_family).2, ?_⟩
  exact ((hend 3).2 (by decide) family family_built).2 lost 0 rfl rfl rfl

end Store
end Scriptlet
