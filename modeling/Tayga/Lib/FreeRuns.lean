import Mathlib.Algebra.GroupWithZero.Nat
import Mathlib.Data.List.Pairwise
import Mathlib.Data.List.Perm.Basic

/-!
# Free runs

An interval of numbers is cut into runs: a run is a number in use followed by free ones.  A list of runs
`(start, free)` covers the interval when each run begins where the one before it ends (`Chain`).  Using a free number
splits a run in two (`Chain.split`), giving a number back joins its run to the one in front (`Chain.merge`); the
numbers in use stay distinct (`Chain.starts_lt`), every number of the interval is in one run (`Chain.exists_run`), used
and free numbers together are the interval (`Chain.perm_range`), and the numbers in use determine the runs
(`Chain.eq_of_starts`).
-/

namespace FreeRuns

/-- The runs cover `[start, stop)` without gaps. -/
def Chain (stop : Nat) : Nat → List (Nat × Nat) → Prop
  | start, [] => start = stop
  | start, r :: l => r.1 = start ∧ Chain stop (r.1 + r.2 + 1) l

theorem Chain.le {stop start : Nat} {l : List (Nat × Nat)} (h : Chain stop start l) : start ≤ stop := by
  induction l generalizing start with
  | nil => exact Nat.le_of_eq h
  | cons r l ih =>
    have := ih h.2
    have := h.1
    omega

theorem chain_append {stop start : Nat} {l l' : List (Nat × Nat)} :
    Chain stop start (l ++ l') ↔ ∃ m, Chain m start l ∧ Chain stop m l' := by
  induction l generalizing start with
  | nil =>
    constructor
    · intro h
      exact ⟨start, rfl, h⟩
    · rintro ⟨m, rfl, h⟩
      exact h
  | cons r l ih =>
    simp only [List.cons_append, Chain, ih]
    constructor
    · rintro ⟨h, m, h1, h2⟩
      exact ⟨m, ⟨h, h1⟩, h2⟩
    · rintro ⟨m, ⟨h, h1⟩, h2⟩
      exact ⟨h, m, h1, h2⟩

/-- Using the free number `a` of a run splits the run. -/
theorem Chain.split {stop start f c a : Nat} {l l' : List (Nat × Nat)} (h : Chain stop start (l ++ (f, c) :: l'))
    (hlow : f < a) (hhigh : a ≤ f + c) : Chain stop start (l ++ (f, a - f - 1) :: (a, c - (a - f)) :: l') := by
  obtain ⟨m, h1, h2, h3⟩ := chain_append.1 h
  refine chain_append.2 ⟨m, h1, h2, ?_, ?_⟩
  · simp only
    omega
  · simp only at h3 ⊢
    rw [show a + (c - (a - f)) + 1 = f + c + 1 by omega]
    exact h3

/-- Giving back the number of a run joins the run to the one in front of it. -/
theorem Chain.merge {stop start f c a c' : Nat} {l l' : List (Nat × Nat)}
    (h : Chain stop start (l ++ (f, c) :: (a, c') :: l')) : Chain stop start (l ++ (f, c + (c' + 1)) :: l') := by
  obtain ⟨m, h1, h2, h3, h4⟩ := chain_append.1 h
  refine chain_append.2 ⟨m, h1, h2, ?_⟩
  simp only at h3 h4 ⊢
  rw [show f + (c + (c' + 1)) + 1 = a + c' + 1 by omega]
  exact h4

/-- Every run lies in the interval. -/
theorem Chain.bounds {stop start : Nat} {l : List (Nat × Nat)} (h : Chain stop start l) :
    ∀ r ∈ l, start ≤ r.1 ∧ r.1 + r.2 + 1 ≤ stop := by
  induction l generalizing start with
  | nil => simp
  | cons r l ih =>
    intro r' hr'
    have hle := h.2.le
    have hs := h.1
    rcases List.mem_cons.1 hr' with rfl | hr'
    · omega
    · have := ih h.2 r' hr'
      omega

/-- The numbers in use increase along the list. -/
theorem Chain.starts_lt {stop start : Nat} {l : List (Nat × Nat)} (h : Chain stop start l) :
    l.Pairwise fun r r' => r.1 < r'.1 := by
  induction l generalizing start with
  | nil => exact List.Pairwise.nil
  | cons r l ih =>
    refine List.pairwise_cons.2 ⟨?_, ih h.2⟩
    intro r' hr'
    have := (h.2.bounds r' hr').1
    omega

/-- A number in use is not a free number of another run. -/
theorem Chain.start_not_free {stop start : Nat} {l : List (Nat × Nat)} (h : Chain stop start l) {r s : Nat × Nat}
    (hr : r ∈ l) (hs : s ∈ l) : ¬ (r.1 < s.1 ∧ s.1 ≤ r.1 + r.2) := by
  obtain ⟨l₁, l₂, rfl⟩ := List.append_of_mem hr
  have hlt := (List.pairwise_append.1 h.starts_lt).2.2
  obtain ⟨m, -, -, h2⟩ := chain_append.1 h
  rcases List.mem_append.1 hs with hs | hs
  · have := hlt s hs r List.mem_cons_self
    omega
  · rcases List.mem_cons.1 hs with rfl | hs
    · omega
    · have := (h2.bounds s hs).1
      omega

/-! ### What a chain covers -/

/-- The free numbers of a run. -/
def free (r : Nat × Nat) : List Nat := List.range' (r.1 + 1) r.2

theorem Chain.next {stop start : Nat} {l l' : List (Nat × Nat)} {r s : Nat × Nat}
    (h : Chain stop start (l ++ r :: s :: l')) : s.1 = r.1 + r.2 + 1 := by
  obtain ⟨m, -, -, h2, -⟩ := chain_append.1 h
  exact h2

theorem Chain.last {stop start : Nat} {l : List (Nat × Nat)} {r : Nat × Nat} (h : Chain stop start (l ++ [r])) :
    r.1 + r.2 + 1 = stop := by
  obtain ⟨m, -, -, h2⟩ := chain_append.1 h
  exact h2

/-- A number of the interval lies in one run, and the runs before it end below the number. -/
theorem Chain.exists_run {stop start a : Nat} {l : List (Nat × Nat)} (h : Chain stop start l) (hlow : start ≤ a)
    (hhigh : a < stop) : ∃ l₁ r l₂, l = l₁ ++ r :: l₂ ∧ (∀ s ∈ l₁, s.1 + s.2 < a) ∧ r.1 ≤ a ∧ a ≤ r.1 + r.2 := by
  induction l generalizing start with
  | nil =>
    have : start = stop := h
    omega
  | cons r l ih =>
    have hr := h.1
    by_cases ha : a ≤ r.1 + r.2
    · exact ⟨[], r, l, rfl, by simp, by omega, ha⟩
    · obtain ⟨l₁, s, l₂, rfl, h1, h2⟩ := ih h.2 (by omega)
      refine ⟨r :: l₁, s, l₂, rfl, ?_, h2⟩
      intro t ht
      rcases List.mem_cons.1 ht with rfl | ht
      · omega
      · exact h1 t ht

/-- The runs one after the other count through the interval. -/
theorem Chain.flatMap_eq_range {stop start : Nat} {l : List (Nat × Nat)} (h : Chain stop start l) :
    (l.flatMap fun r => r.1 :: free r) = List.range' start (stop - start) := by
  induction l generalizing start with
  | nil =>
    have : start = stop := h
    simp [this]
  | cons r l ih =>
    have hr := h.1
    have hle := h.2.le
    rw [List.flatMap_cons, ih h.2, free, hr, ← List.range'_succ]
    rw [show start + r.2 + 1 = start + 1 * (r.2 + 1) by omega, List.range'_append]
    congr 1
    omega

/-- The numbers in use and the free ones make up the interval. -/
theorem Chain.perm_range {stop start : Nat} {l : List (Nat × Nat)} (h : Chain stop start l) :
    (l.map Prod.fst ++ l.flatMap free).Perm (List.range' start (stop - start)) := by
  rw [← h.flatMap_eq_range]
  exact List.map_append_flatMap_perm l Prod.fst free

/-- The free numbers and those in use count up to the length of the interval. -/
theorem Chain.sum_free {stop start : Nat} {l : List (Nat × Nat)} (h : Chain stop start l) :
    (l.map Prod.snd).sum + l.length = stop - start := by
  have hl := h.perm_range.length_eq
  have hm : (l.map fun r => (free r).length) = l.map Prod.snd := List.map_congr_left fun r _ => List.length_range'
  rw [List.length_append, List.length_map, List.length_flatMap, List.length_range', hm] at hl
  omega

/-- Two chains over the interval that use the same numbers are the same. -/
theorem Chain.eq_of_starts {stop start : Nat} {l l' : List (Nat × Nat)} (h : Chain stop start l)
    (h' : Chain stop start l') (hs : ∀ n, n ∈ l.map Prod.fst ↔ n ∈ l'.map Prod.fst) : l = l' := by
  have key : ∀ {stop start : Nat} {l l' : List (Nat × Nat)}, Chain stop start l → Chain stop start l' →
      l.map Prod.fst = l'.map Prod.fst → l = l' := by
    intro stop start l
    induction l generalizing start with
    | nil =>
      intro l' _ _ he
      exact (List.map_eq_nil_iff.1 he.symm).symm
    | cons r l ih =>
      intro l' h h' he
      cases l' with
      | nil => cases he
      | cons r' l' =>
        rw [List.map_cons, List.map_cons, List.cons.injEq] at he
        have hc := h.2
        have hc' := h'.2
        -- the next number in use, or the end, tells how many are free
        have hcount : r.2 = r'.2 := by
          have h1 := he.1
          cases l with
          | nil =>
            have hl' : l' = [] := List.map_eq_nil_iff.1 he.2.symm
            rw [hl'] at hc'
            have e : r.1 + r.2 + 1 = stop := hc
            have e' : r'.1 + r'.2 + 1 = stop := hc'
            omega
          | cons s l =>
            cases l' with
            | nil => simp at he
            | cons s' l' =>
              have h2 := he.2
              rw [List.map_cons, List.map_cons, List.cons.injEq] at h2
              have e := hc.1
              have e' := hc'.1
              omega
        have hr : r = r' := Prod.ext he.1 hcount
        subst hr
        rw [ih hc hc' he.2]
  refine key h h' (@List.Perm.eq_of_pairwise _ (· < ·) _ _ ?_ ?_ ?_ ?_)
  · intro a b _ _ hab hba
    omega
  · rw [List.pairwise_map]
    exact h.starts_lt
  · rw [List.pairwise_map]
    exact h'.starts_lt
  · refine (List.perm_ext_iff_of_nodup ?_ ?_).2 hs
    · refine List.Pairwise.imp (fun hab => Nat.ne_of_lt hab) ?_ (R := fun a b : Nat => a < b)
      rw [List.pairwise_map]
      exact h.starts_lt
    · refine List.Pairwise.imp (fun hab => Nat.ne_of_lt hab) ?_ (R := fun a b : Nat => a < b)
      rw [List.pairwise_map]
      exact h'.starts_lt

end FreeRuns
