import Mathlib.Data.List.Pairwise
import Mathlib.Order.Lattice

/-!
# First match in an ordered list

A table searched front to back returns the first entry that matches.  When the list is ordered by a decreasing
key, that entry has the greatest key among the matching ones (`find?_max`); when no two entries match together,
it is the only one (`find?_eq_some_iff_of_exclusive`).  `insertBefore` puts an element in front of the first entry
with a given property, which is how an ordered list is extended.
-/

namespace FirstMatch

variable {α : Type*}

/-- Insert `a` in front of the first element satisfying `p`, at the end when there is none. -/
def insertBefore (p : α → Bool) (a : α) : List α → List α
  | [] => [a]
  | b :: l => if p b then a :: b :: l else b :: insertBefore p a l

@[simp] theorem mem_insertBefore {p : α → Bool} {a b : α} {l : List α} :
    b ∈ insertBefore p a l ↔ b = a ∨ b ∈ l := by
  induction l with
  | nil => simp [insertBefore]
  | cons c l ih =>
    unfold insertBefore
    split
    · simp
    · simp only [List.mem_cons, ih]
      exact or_left_comm

theorem insertBefore_perm (p : α → Bool) (a : α) (l : List α) : (insertBefore p a l).Perm (a :: l) := by
  induction l with
  | nil => exact List.Perm.refl _
  | cons c l ih =>
    unfold insertBefore
    split
    · exact List.Perm.refl _
    · exact (ih.cons c).trans (List.Perm.swap a c l)

theorem nodup_insertBefore {p : α → Bool} {a : α} {l : List α} (ha : a ∉ l) (hl : l.Nodup) :
    (insertBefore p a l).Nodup :=
  (insertBefore_perm p a l).nodup_iff.2 (List.nodup_cons.2 ⟨ha, hl⟩)

/-- An ordered list stays ordered when each entry is on its right side of the new one. -/
theorem pairwise_insertBefore {p : α → Bool} {R : α → α → Prop} {a : α} {l : List α} (hl : l.Pairwise R)
    (hbefore : ∀ b ∈ l, p b = false → R b a) (hafter : ∀ b ∈ l, p b = true → R a b)
    (htrans : ∀ b ∈ l, ∀ c ∈ l, p b = true → R b c → R a c) : (insertBefore p a l).Pairwise R := by
  induction l with
  | nil => exact List.pairwise_singleton R a
  | cons b l ih =>
    rw [List.pairwise_cons] at hl
    unfold insertBefore
    split
    · rename_i hb
      rw [List.pairwise_cons, List.pairwise_cons]
      refine ⟨?_, hl.1, hl.2⟩
      intro c hc
      rcases List.mem_cons.1 hc with rfl | hmem
      · exact hafter c List.mem_cons_self hb
      · exact htrans b List.mem_cons_self c hc hb (hl.1 c hmem)
    · rename_i hb
      rw [List.pairwise_cons]
      refine ⟨?_, ih hl.2 (fun c hc => hbefore c (List.mem_cons_of_mem b hc))
        (fun c hc => hafter c (List.mem_cons_of_mem b hc))
        fun c hc e he => htrans c (List.mem_cons_of_mem b hc) e (List.mem_cons_of_mem b he)⟩
      intro c hc
      rcases mem_insertBefore.1 hc with rfl | hc
      · exact hbefore b List.mem_cons_self (Bool.eq_false_iff.2 hb)
      · exact hl.1 c hc

/-- Inserting in front of the first entry with a smaller key keeps a list ordered by decreasing key. -/
theorem sorted_insertBefore {β : Type*} [LinearOrder β] (key : α → β) (a : α) {l : List α}
    (hl : l.Pairwise fun b c => key c ≤ key b) :
    (insertBefore (fun b => decide (key b < key a)) a l).Pairwise fun b c => key c ≤ key b := by
  refine pairwise_insertBefore hl (fun b _ hb => ?_) (fun b _ hb => ?_) fun b _ c _ hb hbc => ?_
  · exact not_lt.1 (of_decide_eq_false hb)
  · exact le_of_lt (of_decide_eq_true hb)
  · exact le_trans hbc (le_of_lt (of_decide_eq_true hb))

/-- The last entry of an ordered list is the one that all others come before. -/
theorem getLast?_eq_some_of_pairwise {R : α → α → Prop} (hasymm : ∀ b c, R b c → ¬R c b) {a : α} {l : List α}
    (hl : l.Pairwise R) (ha : a ∈ l) : l.getLast? = some a ↔ ∀ b ∈ l, b ≠ a → R b a := by
  have key : ∀ c, l.getLast? = some c → ∀ b ∈ l, b ≠ c → R b c := by
    intro c hc b hb hbc
    obtain ⟨k, rfl⟩ := List.getLast?_eq_some_iff.1 hc
    have hmem := (List.mem_append.1 hb).resolve_right fun h => hbc (List.mem_singleton.1 h)
    exact (List.pairwise_append.1 hl).2.2 b hmem c (List.mem_singleton_self c)
  refine ⟨key a, fun h => ?_⟩
  cases hc : l.getLast? with
  | none =>
    rw [List.getLast?_eq_none_iff.1 hc] at ha
    cases ha
  | some c =>
    by_cases hca : c = a
    · rw [hca]
    · exact absurd (key c hc a ha (Ne.symm hca)) (hasymm c a (h c (List.mem_of_getLast? hc) hca))

/-- In a list ordered by decreasing key the first match has the greatest key among the matches. -/
theorem find?_max {key : α → Nat} {p : α → Bool} {l : List α} (hl : l.Pairwise fun b c => key c ≤ key b) {a : α}
    (h : l.find? p = some a) : ∀ b ∈ l, p b → key b ≤ key a := by
  induction l with
  | nil => cases h
  | cons c l ih =>
    rw [List.pairwise_cons] at hl
    intro b hb hpb
    by_cases hc : p c
    · rw [List.find?_cons_of_pos hc, Option.some.injEq] at h
      subst h
      rcases List.mem_cons.1 hb with rfl | hb
      · exact Nat.le_refl _
      · exact hl.1 b hb
    · rw [List.find?_cons_of_neg hc] at h
      rcases List.mem_cons.1 hb with rfl | hb
      · exact absurd hpb hc
      · exact ih hl.2 h b hb hpb

/-- A match whose key no other match reaches is the first match. -/
theorem find?_eq_some_of_max {key : α → Nat} {p : α → Bool} {l : List α}
    (hl : l.Pairwise fun b c => key c ≤ key b) {a : α} (ha : a ∈ l) (hp : p a)
    (hmax : ∀ b ∈ l, p b → key a ≤ key b → b = a) : l.find? p = some a := by
  cases hf : l.find? p with
  | none => exact absurd hp (List.find?_eq_none.1 hf a ha)
  | some b =>
    have hb := List.mem_of_find?_eq_some hf
    exact congrArg some (hmax b hb (List.find?_some hf) (find?_max hl hf a ha hp))

/-- When no two entries match together, the first match is the only one. -/
theorem find?_eq_some_iff_of_exclusive {p : α → Bool} {l : List α}
    (hl : ∀ a ∈ l, ∀ b ∈ l, p a → p b → a = b) {a : α} : l.find? p = some a ↔ a ∈ l ∧ p a := by
  constructor
  · intro h
    exact ⟨List.mem_of_find?_eq_some h, List.find?_some h⟩
  · rintro ⟨ha, hp⟩
    cases hf : l.find? p with
    | none => exact absurd hp (List.find?_eq_none.1 hf a ha)
    | some b => exact congrArg some (hl b (List.mem_of_find?_eq_some hf) a ha (List.find?_some hf) hp)

/-! ### Searches in a changed list -/

/-- An inserted element that does not match changes no search. -/
theorem find?_insertBefore_of_neg {p q : α → Bool} {a : α} (ha : q a = false) (l : List α) :
    (insertBefore p a l).find? q = l.find? q := by
  induction l with
  | nil => simp [insertBefore, ha]
  | cons b l ih =>
    unfold insertBefore
    split
    · rw [List.find?_cons_of_neg (by simp [ha])]
    · by_cases hb : q b
      · rw [List.find?_cons_of_pos hb, List.find?_cons_of_pos hb]
      · rw [List.find?_cons_of_neg hb, List.find?_cons_of_neg hb, ih]

/-- Removing an element that is not the first match changes no search. -/
theorem find?_filter_ne [DecidableEq α] {q : α → Bool} {a : α} {l : List α} (h : l.find? q ≠ some a) :
    (l.filter (· ≠ a)).find? q = l.find? q := by
  induction l with
  | nil => rfl
  | cons b l ih =>
    by_cases hb : q b
    · rw [List.find?_cons_of_pos hb] at h ⊢
      have hne : b ≠ a := fun e => h (congrArg some e)
      rw [List.filter_cons_of_pos (by simpa using hne), List.find?_cons_of_pos hb]
    · rw [List.find?_cons_of_neg hb] at h ⊢
      by_cases hba : b = a
      · rw [List.filter_cons_of_neg (by simpa using hba), ih h]
      · rw [List.filter_cons_of_pos (by simpa using hba), List.find?_cons_of_neg hb, ih h]

/-- A search depends only on the answers for the entries of the list. -/
theorem find?_congr {p q : α → Bool} {l : List α} (h : ∀ a ∈ l, p a = q a) : l.find? p = l.find? q := by
  induction l with
  | nil => rfl
  | cons b l ih =>
    rw [List.find?_cons, List.find?_cons, h b List.mem_cons_self, ih fun a ha => h a (List.mem_cons_of_mem b ha)]

end FirstMatch
