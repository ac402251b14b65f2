import Mathlib.Data.List.Basic
import Mathlib.Data.Nat.Basic

/-!
# Cutting a list into pieces of one size

`cut n off l` are the pieces of `l` of length `n`, the last one shorter or equal, with their offsets counted from
`off`; the empty list has one empty piece.  The key facts: the pieces put together are the list (`cut_flatten`), their
number (`length_cut`), what piece `i` is (`getElem_cut`), and how many pieces have a property of lengths (`countP_cut`).
-/

namespace Cut

/-- A piece: its offset, its content, and whether it is the last. -/
structure Piece (α : Type) where
  offset : Nat
  data : List α
  last : Bool
deriving Repr, DecidableEq

variable {α : Type}

/-- The pieces of length `n`. -/
def cut (n off : Nat) (l : List α) : List (Piece α) :=
  if n = 0 ∨ l.length ≤ n then [⟨off, l, true⟩]
  else ⟨off, l.take n, false⟩ :: cut n (off + n) (l.drop n)
termination_by l.length
decreasing_by
  rw [List.length_drop]
  omega

theorem cut_of_le {n : Nat} (off : Nat) {l : List α} (h : l.length ≤ n) : cut n off l = [⟨off, l, true⟩] := by
  rw [cut, if_pos (Or.inr h)]

theorem cut_of_lt {n : Nat} (hn : 0 < n) (off : Nat) {l : List α} (h : n < l.length) :
    cut n off l = ⟨off, l.take n, false⟩ :: cut n (off + n) (l.drop n) := by
  rw [cut, if_neg (by omega)]

theorem cut_ne_nil (n off : Nat) (l : List α) : cut n off l ≠ [] := by
  rw [cut]
  split <;> exact List.cons_ne_nil _ _

/-- **The pieces put together are the list.** -/
theorem cut_flatten (n off : Nat) (l : List α) : (cut n off l).flatMap Piece.data = l := by
  fun_induction cut n off l with
  | case1 off l h => simp
  | case2 off l h ih => rw [List.flatMap_cons, ih, List.take_append_drop]

/-- A piece that is not the last one. -/
def Piece.inner (p : Piece α) : Piece α := { p with last := false }

/-- **Full pieces in front of the last one.** -/
theorem cut_split {n k : Nat} (hk : 0 < k) (off : Nat) {l : List α} (hlt : k * n < l.length)
    (hle : l.length ≤ (k + 1) * n) :
    cut n off l = (cut n off (l.take (k * n))).map Piece.inner ++ [⟨off + k * n, l.drop (k * n), true⟩] := by
  have hn : 0 < n := by
    by_contra h
    rw [Nat.eq_zero_of_not_pos h, Nat.mul_zero] at hlt hle
    omega
  induction k, hk using Nat.le_induction generalizing off l with
  | base =>
    rw [Nat.one_mul] at *
    rw [cut_of_lt hn off hlt, cut_of_le (l := l.drop n) (off + n) (by rw [List.length_drop]; omega),
      cut_of_le (l := l.take n) off (List.length_take_le n l)]
    rfl
  | succ k hk ih =>
    rw [Nat.succ_mul] at hlt hle
    rw [Nat.succ_mul k n] at hle
    have hfirst : n < l.length := by
      have := Nat.le_mul_of_pos_left n hk
      omega
    have htake : n < (l.take (k * n + n)).length := by
      rw [List.length_take]
      have := Nat.le_mul_of_pos_left n hk
      omega
    have hdrop : (l.take (k * n + n)).drop n = (l.drop n).take (k * n) := by
      rw [List.drop_take, Nat.add_sub_cancel]
    rw [cut_of_lt hn off hfirst, Nat.succ_mul, cut_of_lt hn off htake, hdrop, List.take_take,
      Nat.min_eq_left (Nat.le_add_left n _), ih (off + n) (by rw [List.length_drop]; omega)
        (by rw [List.length_drop, Nat.succ_mul]; omega), List.drop_drop, List.map_cons, List.cons_append,
      Nat.add_comm (k * n) n, ← Nat.add_assoc]
    rfl

/-- The number of pieces. -/
theorem length_cut {n : Nat} (hn : 0 < n) (off : Nat) (l : List α) :
    (cut n off l).length = max 1 ((l.length + n - 1) / n) := by
  fun_induction cut n off l with
  | case1 off l h =>
    have hle : l.length ≤ n := by omega
    have h1 : (l.length + n - 1) / n ≤ 1 := by
      rw [Nat.div_le_iff_le_mul_add_pred hn]
      omega
    rw [List.length_singleton, max_eq_left h1]
  | case2 off l h ih =>
    have hlt : n < l.length := by omega
    have h1 : (l.length + n - 1) / n = (l.length - n + n - 1) / n + 1 := by
      rw [← Nat.add_div_right _ hn]
      congr 1
      omega
    have h2 : 1 ≤ (l.length - n + n - 1) / n := (Nat.one_le_div_iff hn).2 (by omega)
    rw [List.length_cons, ih, List.length_drop, h1, max_eq_right h2, max_eq_right (by omega)]

/-- **Piece `i`** begins at `i * n`, is the last one only in the last place, and is full before that. -/
theorem getElem_cut {n : Nat} (hn : 0 < n) (off : Nat) (l : List α) {i : Nat} (hi : i < (cut n off l).length) :
    (cut n off l)[i] = ⟨off + i * n, (l.drop (i * n)).take n, decide (i + 1 = (cut n off l).length)⟩ := by
  fun_induction cut n off l generalizing i with
  | case1 off l h =>
    have h0 : i = 0 := by simpa using hi
    subst h0
    simp [List.take_of_length_le (by omega : l.length ≤ n)]
  | case2 off l h ih =>
    cases i with
    | zero =>
      have := List.length_pos_of_ne_nil (cut_ne_nil n (off + n) (l.drop n))
      simp only [List.getElem_cons_zero, Nat.zero_mul, List.drop_zero, Nat.add_zero, List.length_cons]
      congr 1
      exact (decide_eq_false (by omega)).symm
    | succ i =>
      rw [List.getElem_cons_succ, ih, List.drop_drop, Nat.succ_mul, List.length_cons]
      congr 1
      · omega
      · rw [Nat.add_comm]
      · simp

/-- Only the last piece can be short. -/
theorem length_data {n : Nat} (hn : 0 < n) (off : Nat) (l : List α) {i : Nat} (hi : i + 1 < (cut n off l).length) :
    ((cut n off l)[i].data).length = n := by
  rw [getElem_cut hn, List.length_take, List.length_drop]
  rw [length_cut hn] at hi
  have : (i + 1) * n < l.length := by
    have h1 : i + 1 < (l.length + n - 1) / n := by omega
    have h2 := (Nat.le_div_iff_mul_le hn).1 h1
    rw [Nat.succ_mul] at h2
    omega
  rw [Nat.succ_mul] at this
  omega

theorem length_data_le {n off : Nat} (hn : 0 < n) {l : List α} {p : Piece α} (hp : p ∈ cut n off l) :
    p.data.length ≤ n := by
  fun_induction cut n off l with
  | case1 off l h =>
    obtain rfl := List.mem_singleton.1 hp
    exact (by omega : l.length ≤ n)
  | case2 off l h ih =>
    rcases List.mem_cons.1 hp with rfl | hp
    · exact List.length_take_le n l
    · exact ih hp

/-- No piece is longer than the list. -/
theorem length_data_le_length {n off : Nat} {l : List α} {p : Piece α} (hp : p ∈ cut n off l) :
    p.data.length ≤ l.length := by
  fun_induction cut n off l with
  | case1 off l h =>
    obtain rfl := List.mem_singleton.1 hp
    exact Nat.le_refl _
  | case2 off l h ih =>
    rcases List.mem_cons.1 hp with rfl | hp
    · exact List.length_take_le' n l
    · have hle := ih hp
      rw [List.length_drop] at hle
      omega

/-- Only the empty list has an empty piece. -/
theorem data_ne_nil {n off : Nat} {l : List α} (hl : l ≠ []) {p : Piece α} (hp : p ∈ cut n off l) : p.data ≠ [] := by
  fun_induction cut n off l with
  | case1 off l h =>
    obtain rfl := List.mem_singleton.1 hp
    exact hl
  | case2 off l h ih =>
    rcases List.mem_cons.1 hp with rfl | hp
    · refine List.ne_nil_of_length_pos ?_
      rw [List.length_take]
      omega
    · refine ih (List.ne_nil_of_length_pos ?_) hp
      rw [List.length_drop]
      omega

/-- A piece lies inside the list. -/
theorem offset_add_length_le {n off : Nat} {l : List α} {p : Piece α} (hp : p ∈ cut n off l) :
    p.offset + p.data.length ≤ off + l.length := by
  fun_induction cut n off l with
  | case1 off l h =>
    obtain rfl := List.mem_singleton.1 hp
    exact Nat.le_refl _
  | case2 off l h ih =>
    rcases List.mem_cons.1 hp with rfl | hp
    · exact Nat.add_le_add_left (List.length_take_le' n l) off
    · have hle := ih hp
      rw [List.length_drop] at hle
      omega

/-- **Counting pieces by their length**: the full ones count together, the last one only if it is short. -/
theorem countP_cut {n : Nat} (hn : 0 < n) (P : Nat → Bool) (off : Nat) {l : List α} (hl : l ≠ []) :
    (cut n off l).countP (fun p => P p.data.length) =
      (if P n then l.length / n else 0) + if l.length % n ≠ 0 ∧ P (l.length % n) then 1 else 0 := by
  fun_induction cut n off l with
  | case1 off l h =>
    have hpos := List.length_pos_of_ne_nil hl
    rw [List.countP_singleton]
    by_cases heq : l.length = n
    · have hno : ¬(0 ≠ 0 ∧ P 0 = true) := fun h => h.1 rfl
      rw [heq, Nat.div_self hn, Nat.mod_self, if_neg hno, Nat.add_zero]
    · have hlt : l.length < n := by omega
      rw [Nat.div_eq_of_lt hlt, Nat.mod_eq_of_lt hlt, ite_self, Nat.zero_add]
      exact if_congr (by simp [Nat.pos_iff_ne_zero.1 hpos]) rfl rfl
  | case2 off l h ih =>
    have hlt : n < l.length := by omega
    have hrest : l.drop n ≠ [] := by
      rw [ne_eq, List.drop_eq_nil_iff]
      omega
    have hdiv : l.length / n = (l.length - n) / n + 1 := by
      rw [← Nat.add_div_right _ hn]
      congr 1
      omega
    have hmod : (l.length - n) % n = l.length % n := (Nat.mod_eq_sub_mod (by omega)).symm
    rw [List.countP_cons, ih hrest, List.length_drop, List.length_take, Nat.min_eq_left (by omega), hmod, hdiv]
    by_cases hP : P n
    · rw [if_pos hP, if_pos hP, if_pos hP]
      omega
    · rw [if_neg hP, if_neg hP, if_neg hP, Nat.add_zero]

/-- The pieces of a list that divides evenly are all full. -/
theorem length_data_of_mul {n k off : Nat} (hn : 0 < n) (hk : 0 < k) {l : List α} (hl : l.length = k * n) {p : Piece α}
    (hp : p ∈ cut n off l) : p.data.length = n := by
  have hne : l ≠ [] := fun h => by
    have := Nat.mul_pos hk hn
    rw [h, List.length_nil] at hl
    omega
  have hcount := countP_cut hn (fun m => decide (m ≠ n)) off hne
  rw [hl, Nat.mul_mod_left, if_neg (by simp), if_neg fun h => h.1 rfl] at hcount
  simpa using List.countP_eq_zero.1 hcount p hp

end Cut
