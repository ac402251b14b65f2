import Tayga.Nets

/-!
# Well-formed map lists

What the two map lists keep at all times, as a property of the list and of the halves its names stand for.  In the
IPv4 list no two entries are the same network, so `find_map4` returns the unique longest match
(`ListWf4.find_eq_some`); in the IPv6 list no two entries overlap, so `find_map6` returns the unique match
(`ListWf6.find_eq_some`).  Insertion after the conflict test and removal keep the lists well formed and change only
the searches that the moved entry answers.
-/

namespace Tayga

open FirstMatch BitPrefix

/-! ### The IPv4 list -/

/-- The IPv4 list holds distinct networks by decreasing length. -/
structure ListWf4 (f : MapRef → Map4) (l : List MapRef) : Prop where
  nodup : l.Nodup
  wf : ∀ m ∈ l, (f m).Wf
  sorted : l.Pairwise fun b c => (f c).prefixLen ≤ (f b).prefixLen
  distinct : ∀ m ∈ l, ∀ n ∈ l, (f m).same (f n) = true → m = n

/-- The search of `find_map4`. -/
def find4 (f : MapRef → Map4) (l : List MapRef) (a : In4) : Option MapRef := l.find? fun m => (f m).covers a

theorem findMap4_eq (g : Gcfg) (a : In4) : findMap4 g a = find4 g.map4 g.map4List a := rfl

section Ipv4List

variable {f f' : MapRef → Map4} {l : List MapRef} {m : MapRef} {a : In4}

theorem find4_congr (hf : ∀ n ∈ l, f' n = f n) : find4 f' l a = find4 f l a :=
  find?_congr fun n hn => by rw [hf n hn]

theorem ListWf4.nil : ListWf4 f [] :=
  ⟨List.nodup_nil, by simp, List.Pairwise.nil, by simp⟩

theorem ListWf4.congr (h : ListWf4 f l) (hf : ∀ n ∈ l, f' n = f n) : ListWf4 f' l where
  nodup := h.nodup
  wf n hn := by rw [hf n hn]; exact h.wf n hn
  sorted := h.sorted.imp_of_mem fun {b c} hb hc hbc => by rw [hf b hb, hf c hc]; exact hbc
  distinct b hb c hc hbc := h.distinct b hb c hc (by rwa [hf b hb, hf c hc] at hbc)

/-- `find_map4` returns the longest network that covers the address. -/
theorem ListWf4.find_eq_some (h : ListWf4 f l) :
    find4 f l a = some m ↔
      m ∈ l ∧ (f m).covers a = true ∧ ∀ n ∈ l, (f n).covers a = true → (f n).prefixLen ≤ (f m).prefixLen := by
  constructor
  · intro hf
    have hc : (f m).covers a = true := @List.find?_some _ (fun n => (f n).covers a) _ _ hf
    exact ⟨List.mem_of_find?_eq_some hf, hc, find?_max h.sorted hf⟩
  · rintro ⟨hm, hc, hmax⟩
    refine find?_eq_some_of_max h.sorted hm hc ?_
    intro n hn hnc hle
    have hlen : (f n).prefixLen = (f m).prefixLen := by have := hmax n hn hnc; omega
    exact h.distinct n hn m hm ((h.wf n hn).same_of_covers (h.wf m hm) hlen hnc hc)

/-- A host entry answers for its own address. -/
theorem ListWf4.find_host (h : ListWf4 f l) (hm : m ∈ l) (hl : (f m).prefixLen = 32) :
    find4 f l (f m).addr = some m := by
  refine h.find_eq_some.2 ⟨hm, (h.wf m hm).covers_addr, ?_⟩
  intro n hn _
  have := (h.wf n hn).len_le
  omega

theorem ListWf4.insert (h : ListWf4 f l) (hm : m ∉ l) (hwf : (f m).Wf)
    (hd : ∀ s ∈ l, (f s).same (f m) = false) :
    ListWf4 f (insertBefore (fun s => (f s).prefixLen < (f m).prefixLen) m l) where
  nodup := nodup_insertBefore hm h.nodup
  wf n hn := by
    rcases mem_insertBefore.1 hn with rfl | hn
    · exact hwf
    · exact h.wf n hn
  sorted := sorted_insertBefore (fun n => (f n).prefixLen) m h.sorted
  distinct b hb c hc hbc := by
    rcases mem_insertBefore.1 hb with rfl | hb' <;> rcases mem_insertBefore.1 hc with rfl | hc'
    · rfl
    · have := hd c hc'
      simp only [Map4.same, Bool.and_eq_true, decide_eq_true_eq] at hbc
      simp [Map4.same, hbc.1, hbc.2] at this
    · have := hd b hb'
      rw [hbc] at this
      cases this
    · exact h.distinct b hb' c hc' hbc

theorem ListWf4.filter (h : ListWf4 f l) (p : MapRef → Bool) : ListWf4 f (l.filter p) where
  nodup := h.nodup.filter p
  wf n hn := h.wf n (List.mem_filter.1 hn).1
  sorted := h.sorted.filter p
  distinct b hb c hc := h.distinct b (List.mem_filter.1 hb).1 c (List.mem_filter.1 hc).1

end Ipv4List

/-! ### The IPv6 list -/

/-- The IPv6 list holds networks that do not overlap, by decreasing length. -/
structure ListWf6 (f : MapRef → Map6) (l : List MapRef) : Prop where
  nodup : l.Nodup
  wf : ∀ m ∈ l, (f m).Wf
  sorted : l.Pairwise fun b c => (f c).prefixLen ≤ (f b).prefixLen
  disjoint : ∀ m ∈ l, ∀ n ∈ l, (f m).clash (f n) = true → m = n

/-- The search of `find_map6`. -/
def find6 (f : MapRef → Map6) (l : List MapRef) (x : In6) : Option MapRef := l.find? fun m => (f m).covers x

theorem findMap6_eq (g : Gcfg) (x : In6) : findMap6 g x = find6 g.map6 g.map6List x := rfl

section Ipv6List

variable {f f' : MapRef → Map6} {l : List MapRef} {m : MapRef} {x : In6}

theorem find6_congr (hf : ∀ n ∈ l, f' n = f n) : find6 f' l x = find6 f l x :=
  find?_congr fun n hn => by rw [hf n hn]

theorem ListWf6.nil : ListWf6 f [] :=
  ⟨List.nodup_nil, by simp, List.Pairwise.nil, by simp⟩

theorem ListWf6.congr (h : ListWf6 f l) (hf : ∀ n ∈ l, f' n = f n) : ListWf6 f' l where
  nodup := h.nodup
  wf n hn := by rw [hf n hn]; exact h.wf n hn
  sorted := h.sorted.imp_of_mem fun {b c} hb hc hbc => by rw [hf b hb, hf c hc]; exact hbc
  disjoint b hb c hc hbc := h.disjoint b hb c hc (by rwa [hf b hb, hf c hc] at hbc)

/-- `find_map6` returns the one network that covers the address. -/
theorem ListWf6.find_eq_some (h : ListWf6 f l) : find6 f l x = some m ↔ m ∈ l ∧ (f m).covers x = true := by
  refine find?_eq_some_iff_of_exclusive ?_
  intro b hb c hc hbx hcx
  exact h.disjoint b hb c hc ((h.wf b hb).clash_of_covers (h.wf c hc) hbx hcx)

theorem ListWf6.find_eq_none : find6 f l x = none ↔ ∀ n ∈ l, (f n).covers x = false := by
  simp [find6, List.find?_eq_none]

theorem ListWf6.insert (h : ListWf6 f l) (hm : m ∉ l) (hwf : (f m).Wf)
    (hd : ∀ s ∈ l, (f s).clash (f m) = false) :
    ListWf6 f (insertBefore (fun s => (f s).prefixLen < (f m).prefixLen) m l) where
  nodup := nodup_insertBefore hm h.nodup
  wf n hn := by
    rcases mem_insertBefore.1 hn with rfl | hn
    · exact hwf
    · exact h.wf n hn
  sorted := sorted_insertBefore (fun n => (f n).prefixLen) m h.sorted
  disjoint b hb c hc hbc := by
    rcases mem_insertBefore.1 hb with rfl | hb' <;> rcases mem_insertBefore.1 hc with rfl | hc'
    · rfl
    · have hcl := (hwf.clash_iff (h.wf c hc')).1 hbc
      have := ((h.wf c hc').clash_iff hwf).2 hcl.symm
      rw [hd c hc'] at this
      cases this
    · rw [hd b hb'] at hbc
      cases hbc
    · exact h.disjoint b hb' c hc' hbc

theorem ListWf6.filter (h : ListWf6 f l) (p : MapRef → Bool) : ListWf6 f (l.filter p) where
  nodup := h.nodup.filter p
  wf n hn := h.wf n (List.mem_filter.1 hn).1
  sorted := h.sorted.filter p
  disjoint b hb c hc := h.disjoint b (List.mem_filter.1 hb).1 c (List.mem_filter.1 hc).1

/-- An address under no entry conflicts with no entry as a host. -/
theorem ListWf6.no_clash_host (h : ListWf6 f l) (hwf : (f m).Wf) (hl : (f m).prefixLen = 128)
    (hx : find6 f l (f m).addr = none) : ∀ s ∈ l, (f s).clash (f m) = false := by
  intro s hs
  have hns := ListWf6.find_eq_none.1 hx s hs
  rw [Bool.eq_false_iff]
  intro hc
  obtain ⟨y, hsy, hmy⟩ := (h.wf s hs).exists_covers_of_clash hwf hc
  rw [(hwf.covers_host hl).1 hmy, hns] at hsy
  cases hsy

end Ipv6List

end Tayga
