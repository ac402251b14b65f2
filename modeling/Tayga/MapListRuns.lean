import Mathlib.Logic.Relation
import Tayga.Config
import Tayga.Linking

/-!
# Runs of the map lists

The map lists under any mix of insertions and removals.  Both insertions keep the lists well formed, whether they take
the entry or not (`MapListsWf.step`), so in every state reached from empty lists a search finds the longest, or the
only, entry that covers the address, and an insertion fails exactly on the entry it names (`map_lists_run`).
-/

namespace Tayga

open FirstMatch Relation

variable {g g' : Gcfg} {m s : MapRef}

/-- One change of the lists.  An entry is filled in while no list holds it. -/
inductive MapListStep : Gcfg → Gcfg → Prop
  | insert4 {g : Gcfg} {m : MapRef} (h : (g.map4 m).Wf) : MapListStep g (tryInsertMap4 g m)
  | insert6 {g : Gcfg} {m : MapRef} (h : (g.map6 m).Wf) : MapListStep g (tryInsertMap6 g m)
  | remove4 {g : Gcfg} {m : MapRef} : MapListStep g (delMap4 g m)
  | remove6 {g : Gcfg} {m : MapRef} : MapListStep g (delMap6 g m)
  | fill {g g' : Gcfg} (h4 : g'.map4List = g.map4List) (h6 : g'.map6List = g.map6List)
      (hm4 : ∀ m ∈ g.map4List, g'.map4 m = g.map4 m) (hm6 : ∀ m ∈ g.map6List, g'.map6 m = g.map6 m) :
      MapListStep g g'

/-- Both lists are well formed. -/
structure MapListsWf (g : Gcfg) : Prop where
  list4 : ListWf4 g.map4 g.map4List
  list6 : ListWf6 g.map6 g.map6List

/-- An entry of the list is in the way of itself. -/
private theorem not_mem_of_free4 (h : ∀ s ∈ g.map4List, (g.map4 s).same (g.map4 m) = false) : m ∉ g.map4List := by
  intro hm
  have := h m hm
  simp [Map4.same] at this

private theorem not_mem_of_free6 (hm : (g.map6 m).Wf)
    (h : ∀ s ∈ g.map6List, (g.map6 s).clash (g.map6 m) = false) : m ∉ g.map6List := by
  intro hl
  have := h m hl
  rw [hm.clash_of_covers hm hm.covers_addr hm.covers_addr] at this
  cases this

private theorem MapListsWf.insert4 (h : MapListsWf g) (hm : (g.map4 m).Wf) : MapListsWf (tryInsertMap4 g m) := by
  cases hi : insertMap4 g m with
  | ok g' =>
    obtain ⟨hd, rfl⟩ := insertMap4_eq_ok.1 hi
    rw [tryInsertMap4_eq hd]
    exact ⟨h.list4.insert (not_mem_of_free4 hd) hm hd, h.list6⟩
  | error s =>
    rw [tryInsertMap4, hi]
    exact h

private theorem MapListsWf.insert6 (h : MapListsWf g) (hm : (g.map6 m).Wf) : MapListsWf (tryInsertMap6 g m) := by
  cases hi : insertMap6 g m with
  | ok g' =>
    obtain ⟨hd, rfl⟩ := insertMap6_eq_ok.1 hi
    rw [tryInsertMap6_eq hd]
    exact ⟨h.list4, h.list6.insert (not_mem_of_free6 hm hd) hm hd⟩
  | error s =>
    rw [tryInsertMap6, hi]
    exact h

/-- Every change keeps the lists well formed. -/
theorem MapListsWf.step (h : MapListsWf g) (hs : MapListStep g g') : MapListsWf g' := by
  cases hs with
  | insert4 hm => exact h.insert4 hm
  | insert6 hm => exact h.insert6 hm
  | remove4 => exact ⟨h.list4.filter _, h.list6⟩
  | remove6 => exact ⟨h.list4, h.list6.filter _⟩
  | fill h4 h6 hm4 hm6 =>
    refine ⟨?_, ?_⟩
    · rw [h4]
      exact h.list4.congr hm4
    · rw [h6]
      exact h.list6.congr hm6

theorem MapListsWf.run {g₀ : Gcfg} (hr : ReflTransGen MapListStep g₀ g) (h : MapListsWf g₀) : MapListsWf g := by
  induction hr with
  | refl => exact h
  | tail _ hs ih => exact ih.step hs

/-! ### What a well-formed list gives -/

private theorem same_iff {b c : Map4} : b.same c = true ↔ b.prefixLen = c.prefixLen ∧ b.addr = c.addr := by
  simp only [Map4.same, Bool.and_eq_true, decide_eq_true_eq]

private theorem MapListsWf.distinct4 (h : MapListsWf g) : g.map4List.Pairwise fun b c =>
    ¬((g.map4 b).prefixLen = (g.map4 c).prefixLen ∧ (g.map4 b).addr = (g.map4 c).addr) := by
  refine h.list4.nodup.imp_of_mem fun {b c} hb hc hne he => hne ?_
  exact h.list4.distinct b hb c hc (same_iff.2 he)

private theorem MapListsWf.disjoint6 (h : MapListsWf g) : g.map6List.Pairwise fun b c =>
    ∀ x, ¬((g.map6 b).covers x = true ∧ (g.map6 c).covers x = true) := by
  refine h.list6.nodup.imp_of_mem fun {b c} hb hc hne x hx => hne ?_
  exact h.list6.disjoint b hb c hc ((h.list6.wf b hb).clash_of_covers (h.list6.wf c hc) hx.1 hx.2)

/-- `insert_map4` fails on an entry with the same prefix only, and takes every other. -/
private theorem insertMap4_law (g : Gcfg) (m : MapRef) :
    (∀ s, insertMap4 g m = .error s → tryInsertMap4 g m = g ∧ s ∈ g.map4List ∧
      (g.map4 s).prefixLen = (g.map4 m).prefixLen ∧ (g.map4 s).addr = (g.map4 m).addr) ∧
    ((¬∃ s ∈ g.map4List, (g.map4 s).prefixLen = (g.map4 m).prefixLen ∧ (g.map4 s).addr = (g.map4 m).addr) →
      ∃ g', insertMap4 g m = .ok g' ∧ ∀ n, n ∈ g'.map4List ↔ n = m ∨ n ∈ g.map4List) := by
  refine ⟨?_, ?_⟩
  · intro s hi
    obtain ⟨hs, hsame⟩ := insertMap4_error hi
    rw [tryInsertMap4, hi]
    exact ⟨rfl, hs, same_iff.1 hsame⟩
  · intro hfree
    refine ⟨_, insertMap4_eq_ok.2 ⟨fun s hs => ?_, rfl⟩, fun n => mem_insertBefore⟩
    rw [Bool.eq_false_iff]
    intro hsame
    exact hfree ⟨s, hs, same_iff.1 hsame⟩

/-- `insert_map6` fails on an entry that overlaps the new one only, and takes every other. -/
private theorem MapListsWf.insertMap6_law (h : MapListsWf g) (hm : (g.map6 m).Wf) :
    (∀ s, insertMap6 g m = .error s → tryInsertMap6 g m = g ∧ s ∈ g.map6List ∧
      ∃ x, (g.map6 s).covers x = true ∧ (g.map6 m).covers x = true) ∧
    ((¬∃ s ∈ g.map6List, ∃ x, (g.map6 s).covers x = true ∧ (g.map6 m).covers x = true) →
      ∃ g', insertMap6 g m = .ok g' ∧ ∀ n, n ∈ g'.map6List ↔ n = m ∨ n ∈ g.map6List) := by
  refine ⟨?_, ?_⟩
  · intro s hi
    obtain ⟨hs, hclash⟩ := insertMap6_error hi
    rw [tryInsertMap6, hi]
    exact ⟨rfl, hs, (h.list6.wf s hs).exists_covers_of_clash hm hclash⟩
  · intro hfree
    refine ⟨_, insertMap6_eq_ok.2 ⟨fun s hs => ?_, rfl⟩, fun n => mem_insertBefore⟩
    rw [Bool.eq_false_iff]
    intro hclash
    exact hfree ⟨s, hs, (h.list6.wf s hs).exists_covers_of_clash hm hclash⟩

/-- In every state reached from empty lists: the IPv4 list is ordered by decreasing length without a network twice and
`find_map4` returns the longest entry; the IPv6 entries are disjoint and `find_map6` returns the only one; and an
insertion fails exactly when an entry is in the way, names that entry and changes nothing. -/
theorem map_lists_run {g₀ : Gcfg} (h4 : g₀.map4List = []) (h6 : g₀.map6List = [])
    (hr : ReflTransGen MapListStep g₀ g) :
    (g.map4List.Pairwise fun b c => (g.map4 c).prefixLen ≤ (g.map4 b).prefixLen) ∧
    (g.map4List.Pairwise fun b c =>
      ¬((g.map4 b).prefixLen = (g.map4 c).prefixLen ∧ (g.map4 b).addr = (g.map4 c).addr)) ∧
    (∀ a m, findMap4 g a = some m ↔ m ∈ g.map4List ∧ (g.map4 m).covers a = true ∧
      ∀ n ∈ g.map4List, (g.map4 n).covers a = true → (g.map4 n).prefixLen ≤ (g.map4 m).prefixLen) ∧
    (g.map6List.Pairwise fun b c => ∀ x, ¬((g.map6 b).covers x = true ∧ (g.map6 c).covers x = true)) ∧
    (∀ x m, findMap6 g x = some m ↔ m ∈ g.map6List ∧ (g.map6 m).covers x = true) ∧
    (∀ m, (g.map4 m).Wf →
      (∀ s, insertMap4 g m = .error s → tryInsertMap4 g m = g ∧ s ∈ g.map4List ∧
        (g.map4 s).prefixLen = (g.map4 m).prefixLen ∧ (g.map4 s).addr = (g.map4 m).addr) ∧
      ((¬∃ s ∈ g.map4List, (g.map4 s).prefixLen = (g.map4 m).prefixLen ∧ (g.map4 s).addr = (g.map4 m).addr) →
        ∃ g', insertMap4 g m = .ok g' ∧ ∀ n, n ∈ g'.map4List ↔ n = m ∨ n ∈ g.map4List)) ∧
    (∀ m, (g.map6 m).Wf →
      (∀ s, insertMap6 g m = .error s → tryInsertMap6 g m = g ∧ s ∈ g.map6List ∧
        ∃ x, (g.map6 s).covers x = true ∧ (g.map6 m).covers x = true) ∧
      ((¬∃ s ∈ g.map6List, ∃ x, (g.map6 s).covers x = true ∧ (g.map6 m).covers x = true) →
        ∃ g', insertMap6 g m = .ok g' ∧ ∀ n, n ∈ g'.map6List ↔ n = m ∨ n ∈ g.map6List)) := by
  have h : MapListsWf g := by
    refine MapListsWf.run hr ⟨?_, ?_⟩
    · rw [h4]
      exact ListWf4.nil
    · rw [h6]
      exact ListWf6.nil
  refine ⟨h.list4.sorted, h.distinct4, ?_, h.disjoint6, ?_, ?_, ?_⟩
  · intro a m
    rw [findMap4_eq]
    exact h.list4.find_eq_some
  · intro x m
    rw [findMap6_eq]
    exact h.list6.find_eq_some
  · intro m _
    exact insertMap4_law g m
  · intro m hm
    exact h.insertMap6_law hm

/-- Both halves of an entry go in. -/
private def insertHalves (g : Gcfg) (m : MapRef) : Gcfg := tryInsertMap6 (tryInsertMap4 g m) m

private theorem insertHalves_run (h4 : (g.map4 m).Wf) (h6 : ((tryInsertMap4 g m).map6 m).Wf) :
    ReflTransGen MapListStep g (insertHalves g m) := .tail (.single (.insert4 h4)) (.insert6 h6)

/-- Entries whose IPv4 networks lie in each other; of their IPv6 networks the last one lies in the first one. -/
private def nestedMaps : Gcfg := { configInit .little 0 with
  statics := fun i => match i with
    | 0 => ⟨⟨0x0a000000, ip4Mask 8, 8, .static⟩, ⟨0x20010db8000100000000000000000000, ip6Mask 48, 48, .static⟩, 0,
        .conffile⟩
    | 1 => ⟨⟨0x0a010000, ip4Mask 16, 16, .static⟩, ⟨0x20010db8000200000000000000000000, ip6Mask 48, 48, .static⟩, 0,
        .conffile⟩
    | _ => ⟨⟨0, ip4Mask 0, 0, .static⟩, ⟨0x20010db8000100010000000000000000, ip6Mask 64, 64, .static⟩, 0, .conffile⟩ }

private def insertedMaps : Gcfg :=
  insertHalves (insertHalves (insertHalves nestedMaps (.static 1)) (.static 0)) (.static 2)

/-- The last IPv6 network is refused.  When the longest IPv4 network goes again, the next longer one answers. -/
theorem map_lists_run_nested :
    insertedMaps.map4List = [.static 1, .static 0, .static 2] ∧
      findMap4 insertedMaps 0x0a010101 = some (.static 1) ∧
      findMap4 (delMap4 insertedMaps (.static 1)) 0x0a010101 = some (.static 0) ∧
      findMap6 (delMap4 insertedMaps (.static 1)) 0x20010db8000100010000000000000001 = some (.static 0) := by
  have hrun : ReflTransGen MapListStep nestedMaps insertedMaps :=
    ((insertHalves_run ⟨by decide, by decide, by decide⟩ ⟨by decide, by decide, by decide⟩).trans
      (insertHalves_run ⟨by decide, by decide, by decide⟩ ⟨by decide, by decide, by decide⟩)).trans
      (insertHalves_run ⟨by decide, by decide, by decide⟩ ⟨by decide, by decide, by decide⟩)
  obtain ⟨-, -, hfind, -⟩ := map_lists_run rfl rfl hrun
  obtain ⟨-, -, hfind4, -, hfind6, -⟩ := map_lists_run rfl rfl (hrun.tail (.remove4 (m := .static 1)))
  exact ⟨by decide, (hfind _ _).2 ⟨by decide, by decide, by decide⟩,
    (hfind4 _ _).2 ⟨by decide, by decide, by decide⟩, (hfind6 _ _).2 ⟨by decide, by decide⟩⟩

end Tayga
