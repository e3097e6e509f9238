import Mathlib
import Scriptlet.Proofs.LexicalScoping

/-!
# Texts read one after another

Each text is numbered from where the one before it stopped, with or without faults, so the nodes of all of them have
different numbers and a later text has the larger ones.  A binding table is therefore shared without loss: loading the
entries of one text leaves the nodes of every other one alone, and for the nodes of a text the shared table is that
text's own (`node_numbers_never_clash`).
-/
namespace Scriptlet

namespace Parsed

/-- The numbers of the nodes that read or assign a variable. -/
def ids (p : Parsed) : List Nat := idsOf (Stmt.occurrencesAll p.statements)

/-- The entries that the text has for the binding table. -/
def entries (p : Parsed) : List (Nat × Nat) := (resolve p.statements).entries

/-- The binding table of the text alone. -/
def table (p : Parsed) : Bindings := (resolve p.statements).table

/-- The text was read with its nodes numbered from `fresh`. -/
def From (fresh : Nat) (p : Parsed) : Prop := ∃ tokens, p = parse fresh tokens

variable {fresh : Nat} {p : Parsed}

theorem From.numbered (h : p.From fresh) : Numbered fresh p.ids p.fresh := by
  obtain ⟨tokens, rfl⟩ := h
  exact (parse_shaped fresh tokens).numbered

theorem From.entries_eq (h : p.From fresh) :
    p.entries = (programPlaces p.statements).filterMap ScopedOccurrence.entry? := by
  obtain ⟨tokens, rfl⟩ := h
  exact (resolve_parse fresh tokens).entries

theorem ids_eq (p : Parsed) : p.ids = idsOf ((programPlaces p.statements).map Prod.snd) := by
  rw [ids, programPlaces, Stmt.placesAll_snd]

theorem mem_ids {k : Nat} : k ∈ p.ids ↔ ∃ q ∈ programPlaces p.statements, q.2.id = k := by
  simp [ids_eq, idsOf]

theorem table_eq (p : Parsed) : p.table = Bindings.add ∅ p.entries := Findings.table_eq_add _

/-- Loading the entries of a text leaves the nodes of others alone. -/
theorem From.load_of_not_mem (h : p.From fresh) (t : Bindings) {k : Nat} (hk : k ∉ p.ids) :
    (t.add p.entries)[k]? = t[k]? := by
  rw [h.entries_eq]
  exact Bindings.add_of_not_mem fun q hq he => hk (mem_ids.2 ⟨q, hq, he⟩)

/-- A node of the text gets the distance that its own table has; if that has none, an earlier entry would stay. -/
theorem From.load_of_mem (h : p.From fresh) {t : Bindings} {k : Nat} (hk : k ∈ p.ids)
    (ht : t[k]? = none ∨ t[k]? = p.table[k]?) : (t.add p.entries)[k]? = p.table[k]? := by
  have hn := h.numbered.nodup
  rw [ids_eq] at hn
  obtain ⟨q, hq, rfl⟩ := mem_ids.1 hk
  have hq' : p.table[q.2.id]? = q.1.distance? q.2.name.lexeme := by
    rw [table_eq, h.entries_eq]
    exact Bindings.add_of_mem hn hq Std.TreeMap.getElem?_emptyc
  rw [hq'] at ht ⊢
  rw [h.entries_eq]
  cases hd : q.1.distance? q.2.name.lexeme with
  | none => rw [Bindings.add_of_mem hn hq (ht.elim id fun ht => ht.trans hd), hd]
  | some d =>
    -- the entry is written, whatever was there
    refine Std.TreeMap.getElem?_insertMany_list_of_mem (Nat.compare_eq_eq.2 rfl) (pairwise_entries hn) ?_
    exact List.mem_filterMap.2 ⟨q, hq, by rw [ScopedOccurrence.entry?, hd]; rfl⟩

end Parsed

/-! ## Texts in a row -/

/-- The texts read one after another. -/
def parseEach (fresh : Nat) : List (List Token) → List Parsed
  | [] => []
  | tokens :: texts => parse fresh tokens :: parseEach (parse fresh tokens).fresh texts

/-- The number of the next node when the texts have been read. -/
def freshAfter (fresh : Nat) (texts : List (List Token)) : Nat :=
  texts.foldl (fun fresh tokens => (parse fresh tokens).fresh) fresh

/-- The table when the entries of the texts have been loaded into it, first to last. -/
def Bindings.loadEach (t : Bindings) (loads : List Parsed) : Bindings := loads.foldl (fun t p => t.add p.entries) t

/-- All nodes of texts in a row. -/
theorem numbered_parseEach : ∀ (texts : List (List Token)) (fresh : Nat),
    Numbered fresh ((parseEach fresh texts).flatMap Parsed.ids) (freshAfter fresh texts)
  | [], fresh => .nil (Nat.le_refl fresh)
  | tokens :: texts, fresh => by
    rw [parseEach, List.flatMap_cons]
    exact (parse_shaped fresh tokens).numbered.append (numbered_parseEach texts _)

theorem exists_from : ∀ {texts : List (List Token)} {fresh : Nat} {p : Parsed}, p ∈ parseEach fresh texts →
    ∃ lo, p.From lo
  | tokens :: texts, fresh, p, h => by
    rw [parseEach] at h
    rcases List.mem_cons.1 h with rfl | h
    · exact ⟨fresh, tokens, rfl⟩
    · exact exists_from h

/-- The nodes of a later text have larger numbers. -/
theorem pairwise_parseEach : ∀ (texts : List (List Token)) (fresh : Nat),
    (parseEach fresh texts).Pairwise fun p q => ∀ i ∈ p.ids, ∀ j ∈ q.ids, i < j
  | [], _ => .nil
  | tokens :: texts, fresh => by
    refine .cons (fun q hq i hi j hj => ?_) (pairwise_parseEach texts _)
    have hlt := ((parse_shaped fresh tokens).numbered.mem i hi).2
    have hle := ((numbered_parseEach texts _).mem j (List.mem_flatMap.2 ⟨q, hq, hj⟩)).1
    exact Nat.lt_of_lt_of_le hlt hle

/-- A number belongs to one text only. -/
theorem eq_of_mem_ids {texts : List (List Token)} {fresh : Nat} {p q : Parsed} {k : Nat}
    (hp : p ∈ parseEach fresh texts)
    (hq : q ∈ parseEach fresh texts) (hkp : k ∈ p.ids) (hkq : k ∈ q.ids) : p = q := by
  -- the order excludes both ways round, so what is left is one and the same text
  have hlt := pairwise_parseEach texts fresh
  refine List.Pairwise.forall_of_forall_of_flip (R := fun p q => k ∈ p.ids → k ∈ q.ids → p = q)
    (fun p _ _ _ => rfl) ?_ ?_
    hp hq hkp hkq
  · exact hlt.imp fun h hkp hkq => absurd (h k hkp k hkq) (Nat.lt_irrefl k)
  · exact hlt.imp fun h hkq hkp => absurd (h k hkp k hkq) (Nat.lt_irrefl k)

theorem Bindings.loadEach_snoc (t : Bindings) (loads : List Parsed) (q : Parsed) :
    t.loadEach (loads ++ [q]) = (t.loadEach loads).add q.entries := by
  simp [loadEach]

/-- **What loads leave of a node**: until its text is loaded there is no entry, then there is that of its own table. -/
theorem getElem?_loadEach {texts : List (List Token)} {fresh : Nat} {p : Parsed} {k : Nat}
    (hp : p ∈ parseEach fresh texts) (hk : k ∈ p.ids) (loads : List Parsed)
    (hl : ∀ q ∈ loads, q ∈ parseEach fresh texts) :
    (p ∉ loads → (Bindings.loadEach ∅ loads)[k]? = none) ∧
      (p ∈ loads → (Bindings.loadEach ∅ loads)[k]? = p.table[k]?) := by
  induction loads using List.reverseRecOn with
  | nil => simp [Bindings.loadEach]
  | append_singleton loads q ih =>
    obtain ⟨hnone, hown⟩ := ih fun r hr => hl r (List.mem_append_left _ hr)
    have hq : q ∈ parseEach fresh texts := hl q (by simp)
    obtain ⟨lo, hfrom⟩ := exists_from hq
    rw [Bindings.loadEach_snoc, List.mem_append, List.mem_singleton]
    by_cases hkq : k ∈ q.ids
    · obtain rfl := eq_of_mem_ids hp hq hk hkq
      refine ⟨fun h => absurd (.inr rfl) h, fun _ => hfrom.load_of_mem hk ?_⟩
      by_cases hpl : p ∈ loads
      · exact .inr (hown hpl)
      · exact .inl (hnone hpl)
    · have hne : p ≠ q := fun h => hkq (h ▸ hk)
      rw [hfrom.load_of_not_mem _ hkq]
      exact ⟨fun h => hnone fun hpl => h (.inl hpl), fun h => hown (h.resolve_right hne)⟩

/-! ## Sessions -/

namespace Session

theorem mem_places_of_accepted : ∀ {earlier : List Text} {s : Session} {t : Text} {later : List Text}
    {p : ScopedOccurrence}, (s.after earlier).Accepts t.source →
      p ∈ programPlaces (analyze (s.after earlier).fresh t.source).statements → p ∈ s.places (earlier ++ t :: later)
  | [], s, t, later, p, ha, hp => by
    rw [after_nil] at ha hp
    rw [List.nil_append, places, textPlaces, if_pos ha]
    exact List.mem_append_left _ hp
  | u :: us, s, t, later, p, ha, hp => by
    rw [List.cons_append, places]
    exact List.mem_append_right _ (mem_places_of_accepted ha hp)

end Session

/-- **Node numbers never clash.**  Of texts read one after another, with or without faults, all nodes that read or
assign a variable have different numbers, those of a later text larger than those of an earlier one.  Loading the
entries of a text into any table keeps what it has for the nodes of the texts before it; when texts have been loaded,
in any order and however often, the table has for the nodes of each of them what its own table has.  And so has the
table of a session, whatever was run in it, for each text that it accepted. -/
theorem node_numbers_never_clash :
    (∀ (fresh : Nat) (texts : List (List Token)),
      let parsed := parseEach fresh texts
      (parsed.flatMap Parsed.ids).Nodup ∧
        (∀ k ∈ parsed.flatMap Parsed.ids, fresh ≤ k ∧ k < freshAfter fresh texts) ∧
        parsed.Pairwise (fun earlier later => ∀ i ∈ earlier.ids, ∀ j ∈ later.ids, i < j) ∧
        parsed.Pairwise (fun earlier later => ∀ (t : Bindings), ∀ k ∈ earlier.ids,
          (t.add later.entries)[k]? = t[k]?) ∧
        ∀ loads : List Parsed, (∀ p ∈ loads, p ∈ parsed) →
          ∀ p ∈ loads, ∀ k ∈ p.ids, (Bindings.loadEach ∅ loads)[k]? = p.table[k]?) ∧
      ∀ (sink : Sink) (clock : Nat → Number) (earlier : List Text) (t : Text) (later : List Text),
        let s := (Session.start sink clock).after earlier
        s.Accepts t.source →
          let own := readSource s.fresh t.source
          ∀ k ∈ own.ids, ((Session.start sink clock).after (earlier ++ t :: later)).machine.bindings[k]? =
            own.table[k]? := by
  refine ⟨fun fresh texts => ?_, ?_⟩
  · have hn := numbered_parseEach texts fresh
    have hlt := pairwise_parseEach texts fresh
    refine ⟨hn.nodup, hn.mem, hlt, ?_, fun loads hl p hp k hk => ?_⟩
    · refine hlt.imp_of_mem fun {p q} _ hq h t k hk => ?_
      obtain ⟨lo, hfrom⟩ := exists_from hq
      exact hfrom.load_of_not_mem t fun hkq => absurd (h k hk k hkq) (Nat.lt_irrefl k)
    · exact (getElem?_loadEach (hl p hp) hk loads hl).2 hp
  · intro sink clock earlier t later s ha own k hk
    obtain ⟨p, hp, rfl⟩ := Parsed.mem_ids.1 hk
    have hfits := (Session.session_sound sink clock (earlier ++ t :: later)).table
    have hplace : p ∈ programPlaces (analyze s.fresh t.source).statements := by rwa [statements_analyze]
    have hread : own.statements = (parse s.fresh (tokensOf (scan t.source))).statements := statements_readSource _ _
    rw [hread] at hp
    rw [hfits.distance p (Session.mem_places_of_accepted ha hplace), Parsed.table, hread]
    exact (table_of_mem s.fresh (tokensOf (scan t.source)) hp).symm

-- The missing numbers: 0 and 7 were variables that became targets, 3 and 4 stood in a statement that was given up.
example :
    (parseEach 0 (["a = b; f(c +;", "g(a) = 1; { var x; x = y; }"].map fun t => tokensOf (scan t))).map Parsed.ids =
      [[1, 2], [5, 6, 8, 9]] := by decide +kernel

end Scriptlet
