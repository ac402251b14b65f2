import Mathlib.Data.ZMod.Basic
import Mathlib.Tactic.Ring
import Mathlib.Tactic.LinearCombination

/-!
# One's complement sums

Sixteen-bit one's complement arithmetic as arithmetic modulo `65535`.  A word stands for its `residue`; the two words
`0` and `0xffff` both stand for zero, so a word is known once its residue and which zero it may be are known
(`residue_inj`, `residue_inj_top`).  The key facts: the end-around carry keeps the residue (`residue_ofSum`),
complementing negates it (`residue_not`), swapping the bytes multiplies it by `256` (`residue_swap`), and the sum of
the words of a byte string is additive where the cut is at an even place (`sumWords_append`).
-/

namespace OnesComplement

/-- What a word stands for. -/
def residue (x : BitVec 16) : ZMod 65535 := (x.toNat : ZMod 65535)

/-- The end-around carry, until the sum fits into sixteen bits. -/
def fold (n : Nat) : Nat := if n ≤ 0xffff then n else fold (n % 65536 + n / 65536)

/-- The sixteen-bit sum whose exact value is `n`. -/
def ofSum (n : Nat) : BitVec 16 := BitVec.ofNat 16 (fold n)

/-- One's complement addition of two words. -/
def plus (x y : BitVec 16) : BitVec 16 :=
  BitVec.ofNat 16 ((x.toNat + y.toNat) % 65536 + (x.toNat + y.toNat) / 65536)

/-- The word with its bytes exchanged. -/
def swap (x : BitVec 16) : BitVec 16 := x.setWidth 8 ++ (x >>> 8).setWidth 8

/-- The sum of the words of a byte string, first byte high; a last single byte counts as the high one. -/
def sumWords : List (BitVec 8) → Nat
  | [] => 0
  | [b] => b.toNat * 256
  | b :: c :: d => b.toNat * 256 + c.toNat + sumWords d

/-- The one's complement sum of a byte string, one word after the other. -/
def onesSum : List (BitVec 8) → BitVec 16
  | [] => 0
  | [b] => b ++ 0#8
  | b :: c :: d => plus (b ++ c) (onesSum d)

/-! ### The two zeros -/

theorem wrap : (65536 : ZMod 65535) = 1 := rfl

theorem natCast_eq_zero {n : Nat} : (n : ZMod 65535) = 0 ↔ n % 65535 = 0 := by
  rw [ZMod.natCast_eq_zero_iff]
  exact Nat.dvd_iff_mod_eq_zero

private theorem toNat_zero : (0 : BitVec 16).toNat = 0 := rfl

private theorem toNat_top : (0xffff : BitVec 16).toNat = 65535 := rfl

theorem residue_eq_zero {x : BitVec 16} : residue x = 0 ↔ x = 0 ∨ x = 0xffff := by
  have hx := x.isLt
  rw [residue, natCast_eq_zero, ← BitVec.toNat_inj, ← BitVec.toNat_inj]
  simp only [toNat_zero, toNat_top]
  omega

private theorem mod_eq {x y : BitVec 16} (h : residue x = residue y) : x.toNat % 65535 = y.toNat % 65535 :=
  (ZMod.natCast_eq_natCast_iff' _ _ _).1 h

/-- A word other than the first zero is known by its residue. -/
theorem residue_inj {x y : BitVec 16} (hx : x ≠ 0) (hy : y ≠ 0) (h : residue x = residue y) : x = y := by
  have := mod_eq h
  have hx' := x.isLt
  have hy' := y.isLt
  rw [ne_eq, ← BitVec.toNat_inj] at hx hy
  simp only [toNat_zero] at hx hy
  apply BitVec.eq_of_toNat_eq
  omega

/-- A word other than the second zero is known by its residue. -/
theorem residue_inj_top {x y : BitVec 16} (hx : x ≠ 0xffff) (hy : y ≠ 0xffff) (h : residue x = residue y) : x = y := by
  have := mod_eq h
  have hx' := x.isLt
  have hy' := y.isLt
  rw [ne_eq, ← BitVec.toNat_inj] at hx hy
  simp only [toNat_top] at hx hy
  apply BitVec.eq_of_toNat_eq
  omega

@[simp] theorem residue_zero : residue 0 = 0 := rfl

@[simp] theorem residue_top : residue 0xffff = 0 := rfl

/-- The complement of a sum checks it. -/
@[simp] theorem residue_not (x : BitVec 16) : residue (~~~x) = - residue x := by
  have hx := x.isLt
  have h : ((~~~x).toNat : ZMod 65535) + (x.toNat : ZMod 65535) = 0 := by
    rw [← Nat.cast_add, natCast_eq_zero, BitVec.toNat_not]
    omega
  exact eq_neg_of_add_eq_zero_left h

theorem residue_ofNat {n : Nat} (h : n < 65536) : residue (BitVec.ofNat 16 n) = n := by
  rw [residue, BitVec.toNat_ofNat, Nat.mod_eq_of_lt h]

/-! ### The end-around carry -/

theorem fold_le (n : Nat) : fold n ≤ 0xffff := by
  fun_induction fold n with
  | case1 n h => exact h
  | case2 n h ih => exact ih

theorem fold_eq_zero {n : Nat} : fold n = 0 ↔ n = 0 := by
  fun_induction fold n with
  | case1 n h => rfl
  | case2 n h ih =>
    rw [ih]
    omega

theorem cast_carry (n : Nat) : ((n % 65536 + n / 65536 : Nat) : ZMod 65535) = n := by
  have h : (n : ZMod 65535) = ((n % 65536 + 65536 * (n / 65536) : Nat) : ZMod 65535) := by rw [Nat.mod_add_div]
  rw [h]
  push_cast
  rw [wrap, one_mul]

theorem cast_fold (n : Nat) : (fold n : ZMod 65535) = n := by
  fun_induction fold n with
  | case1 n h => rfl
  | case2 n h ih => rw [ih, cast_carry]

@[simp] theorem residue_ofSum (n : Nat) : residue (ofSum n) = n := by
  rw [ofSum, residue_ofNat (Nat.lt_succ_of_le (fold_le n)), cast_fold]

theorem ofSum_eq_zero {n : Nat} : ofSum n = 0 ↔ n = 0 := by
  rw [ofSum, ← fold_eq_zero, ← BitVec.toNat_inj, BitVec.toNat_ofNat,
    Nat.mod_eq_of_lt (Nat.lt_succ_of_le (fold_le n)), toNat_zero]

/-! ### One's complement addition -/

@[simp] theorem residue_plus (x y : BitVec 16) : residue (plus x y) = residue x + residue y := by
  have hx := x.isLt
  have hy := y.isLt
  rw [plus, residue_ofNat (by omega), cast_carry, Nat.cast_add, residue, residue]

theorem plus_eq_zero {x y : BitVec 16} : plus x y = 0 ↔ x = 0 ∧ y = 0 := by
  have hx := x.isLt
  have hy := y.isLt
  rw [plus, ← BitVec.toNat_inj, ← BitVec.toNat_inj, ← BitVec.toNat_inj, BitVec.toNat_ofNat, toNat_zero]
  omega

/-- Adding a word before or after the carries have been brought around makes no difference. -/
theorem plus_ofSum (x : BitVec 16) (n : Nat) : plus x (ofSum n) = ofSum (x.toNat + n) := by
  by_cases h : plus x (ofSum n) = 0
  · obtain ⟨rfl, hn⟩ := plus_eq_zero.1 h
    rw [h, eq_comm, ofSum_eq_zero, toNat_zero, Nat.zero_add]
    exact ofSum_eq_zero.1 hn
  · refine residue_inj h (fun h' => h ?_) ?_
    · have hsum := ofSum_eq_zero.1 h'
      rw [plus_eq_zero, ofSum_eq_zero, ← BitVec.toNat_inj, toNat_zero]
      omega
    · rw [residue_plus, residue_ofSum, residue_ofSum, Nat.cast_add, residue]

private theorem toNat_word (b c : BitVec 8) : (b ++ c : BitVec 16).toNat = b.toNat * 256 + c.toNat := by
  rw [BitVec.toNat_append, ← Nat.shiftLeft_add_eq_or_of_lt c.isLt, Nat.shiftLeft_eq]

/-- **The sum word by word is the sum of all words with the carries brought around at the end.** -/
theorem onesSum_eq (d : List (BitVec 8)) : onesSum d = ofSum (sumWords d) := by
  fun_induction sumWords d with
  | case1 => rw [onesSum, ofSum_eq_zero.2 rfl]
  | case2 b =>
    have hb := b.isLt
    have hword := toNat_word b 0#8
    have hzero : (0#8).toNat = 0 := rfl
    apply BitVec.eq_of_toNat_eq
    rw [onesSum, hword, hzero, ofSum, fold, if_pos (by omega), BitVec.toNat_ofNat, Nat.mod_eq_of_lt (by omega),
      Nat.add_zero]
  | case3 b c d ih => rw [onesSum, ih, plus_ofSum, toNat_word]

/-! ### Exchanged bytes -/

theorem toNat_swap (x : BitVec 16) : (swap x).toNat = x.toNat % 256 * 256 + x.toNat / 256 := by
  have hx := x.isLt
  rw [swap, BitVec.toNat_append, BitVec.toNat_setWidth, BitVec.toNat_setWidth, BitVec.toNat_ushiftRight,
    Nat.shiftRight_eq_div_pow, ← Nat.shiftLeft_add_eq_or_of_lt (by omega), Nat.shiftLeft_eq,
    Nat.mod_eq_of_lt (by omega : x.toNat / 2 ^ 8 < 2 ^ 8)]
  norm_num

@[simp] theorem residue_swap (x : BitVec 16) : residue (swap x) = 256 * residue x := by
  have h : (x.toNat : ZMod 65535) = ((x.toNat % 256 + 256 * (x.toNat / 256) : Nat) : ZMod 65535) := by
    rw [Nat.mod_add_div]
  rw [residue, residue, toNat_swap, h]
  push_cast
  have h1 : (256 * 256 : ZMod 65535) = 1 := rfl
  linear_combination (-(x.toNat / 256 : Nat) : ZMod 65535) * h1

@[simp] theorem swap_swap (x : BitVec 16) : swap (swap x) = x := by
  have hx := x.isLt
  apply BitVec.eq_of_toNat_eq
  rw [toNat_swap, toNat_swap]
  omega

/-! ### Sums over byte strings -/

/-- **Cutting at an even place splits the sum.** -/
theorem sumWords_append {a : List (BitVec 8)} (h : a.length % 2 = 0) (b : List (BitVec 8)) :
    sumWords (a ++ b) = sumWords a + sumWords b := by
  fun_induction sumWords a with
  | case1 => rw [List.nil_append, Nat.zero_add]
  | case2 x => exact absurd h (by simp)
  | case3 x y d ih =>
    rw [List.cons_append, List.cons_append, sumWords, ih (by rw [List.length_cons, List.length_cons] at h; omega)]
    omega

/-- The bytes from a place on, each in the half of its word it has there. -/
def dropWords (n : Nat) (d : List (BitVec 8)) : List (BitVec 8) := if n % 2 = 0 then d.drop n else 0 :: d.drop n

/-- **Cutting at any place**, an odd one in the middle of a word. -/
theorem sumWords_take_dropWords {d : List (BitVec 8)} {n : Nat} (hn : n ≤ d.length) :
    sumWords (d.take n) + sumWords (dropWords n d) = sumWords d := by
  have hzero : (0 : BitVec 8).toNat = 0 := rfl
  unfold dropWords
  fun_induction sumWords d generalizing n with
  | case1 =>
    obtain rfl : n = 0 := Nat.le_zero.1 hn
    rfl
  | case2 b =>
    rw [List.length_singleton] at hn
    obtain rfl | rfl : n = 0 ∨ n = 1 := by omega
    · simp [sumWords]
    · simp [sumWords]
  | case3 b c d ih =>
    rcases n with _ | _ | n
    · rw [if_pos rfl, List.take_zero, sumWords, List.drop_zero, sumWords, Nat.zero_add]
    · rw [if_neg (by decide)]
      simp only [Nat.zero_add, List.take_succ_cons, List.take_zero, List.drop_succ_cons, List.drop_zero, sumWords]
      omega
    · have ih := ih (n := n) (by rw [List.length_cons, List.length_cons] at hn; omega)
      rw [show (n + 1 + 1) % 2 = n % 2 by omega]
      simp only [List.take_succ_cons, List.drop_succ_cons, sumWords]
      omega

/-- The sum of the words as a machine with the other byte order loads them. -/
def sumSwapped : List (BitVec 8) → Nat
  | [] => 0
  | [b] => b.toNat
  | b :: c :: d => b.toNat + c.toNat * 256 + sumSwapped d

/-- **The byte order of the machine multiplies a sum by 256.** -/
theorem cast_sumSwapped (d : List (BitVec 8)) : (sumSwapped d : ZMod 65535) = 256 * (sumWords d : ZMod 65535) := by
  have h1 : (256 * 256 : ZMod 65535) = 1 := rfl
  fun_induction sumWords d with
  | case1 => rfl
  | case2 x =>
    rw [sumSwapped]
    push_cast
    linear_combination (-(x.toNat : Nat) : ZMod 65535) * h1
  | case3 x y d ih =>
    rw [sumSwapped]
    push_cast
    linear_combination ih - ((x.toNat : Nat) : ZMod 65535) * h1

end OnesComplement
