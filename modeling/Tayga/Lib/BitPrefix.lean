import Mathlib.Algebra.Group.Nat.Defs
import Mathlib.Data.Nat.Basic

/-!
# Bit prefixes

A network `n/len` over `w`-bit addresses is the set of addresses that agree with `n` on the first `len` bits.  A
network is written by its base address with zero host bits (`Normal`), and membership is the test
`n = a &&& mask` (`InNet`).  The key facts: membership is agreement on the first `len` bits (`inNet_iff`), of two
networks with a common address the shorter contains the longer one's base (`InNet.nested`), and equally long ones
are equal (`InNet.unique`), and a network is an interval (`Normal.inNet_iff_toNat`).
-/

namespace BitPrefix

variable {w : Nat}

/-- The mask of the first `len` of `w` bits. -/
def mask (w len : Nat) : BitVec w := BitVec.allOnes w <<< (w - len)

/-- `n` has no host bits beyond the first `len`. -/
def Normal (n : BitVec w) (len : Nat) : Prop := n &&& mask w len = n

/-- `a` lies in the network `n/len`. -/
def InNet (a n : BitVec w) (len : Nat) : Prop := n = a &&& mask w len

instance (n : BitVec w) (len : Nat) : Decidable (Normal n len) := inferInstanceAs (Decidable (_ = _))
instance (a n : BitVec w) (len : Nat) : Decidable (InNet a n len) := inferInstanceAs (Decidable (_ = _))

/-- `a` and `b` agree on their first `len` bits. -/
def Agree (len : Nat) (a b : BitVec w) : Prop := ∀ i, w - len ≤ i → a.getLsbD i = b.getLsbD i

theorem getLsbD_mask (len i : Nat) : (mask w len).getLsbD i = (decide (w - len ≤ i) && decide (i < w)) := by
  simp only [mask, BitVec.getLsbD_shiftLeft, BitVec.getLsbD_allOnes]
  by_cases h1 : i < w
  · by_cases h2 : w - len ≤ i
    · simp [h1, h2]
      omega
    · simp [h1, h2, Nat.lt_of_not_le h2]
  · simp [h1]

theorem mask_full : mask w w = BitVec.allOnes w := by
  simp [mask]

theorem mask_zero : mask w 0 = 0#w := by
  apply BitVec.eq_of_getLsbD_eq
  intro i hi
  rw [getLsbD_mask]
  simp

theorem Agree.refl (len : Nat) (a : BitVec w) : Agree len a a := fun _ _ => rfl

theorem Agree.symm {len : Nat} {a b : BitVec w} (h : Agree len a b) : Agree len b a :=
  fun i hi => (h i hi).symm

theorem Agree.trans {len : Nat} {a b c : BitVec w} (h : Agree len a b) (h' : Agree len b c) : Agree len a c :=
  fun i hi => (h i hi).trans (h' i hi)

theorem Agree.mono {len len' : Nat} {a b : BitVec w} (h : Agree len a b) (hl : len' ≤ len) : Agree len' a b :=
  fun i hi => h i (by omega)

theorem normal_iff {n : BitVec w} {len : Nat} : Normal n len ↔ ∀ i, i < w - len → n.getLsbD i = false := by
  constructor
  · intro h i hi
    rw [← h, BitVec.getLsbD_and, getLsbD_mask]
    simp; omega
  · intro h
    apply BitVec.eq_of_getLsbD_eq
    intro i hi
    rw [BitVec.getLsbD_and, getLsbD_mask]
    by_cases hlow : i < w - len
    · simp [h i hlow]
    · simp [hi, Nat.le_of_not_lt hlow]

theorem normal_full (n : BitVec w) : Normal n w := by
  rw [normal_iff]; intro i hi; omega

theorem inNet_iff {a n : BitVec w} {len : Nat} : InNet a n len ↔ Normal n len ∧ Agree len a n := by
  constructor
  · intro h
    refine ⟨?_, ?_⟩
    · rw [normal_iff, h]
      intro i hi
      rw [BitVec.getLsbD_and, getLsbD_mask]
      simp; omega
    · intro i hi
      rw [h, BitVec.getLsbD_and, getLsbD_mask]
      by_cases hw : i < w
      · simp [hi, hw]
      · simp [BitVec.getLsbD_of_ge _ _ (Nat.le_of_not_lt hw)]
  · rintro ⟨hn, ha⟩
    apply BitVec.eq_of_getLsbD_eq
    intro i hi
    rw [BitVec.getLsbD_and, getLsbD_mask]
    by_cases hlow : i < w - len
    · simp [normal_iff.1 hn i hlow, Nat.not_le.2 hlow]
    · rw [ha i (by omega), decide_eq_true (Nat.le_of_not_lt hlow), decide_eq_true hi]
      simp

theorem InNet.normal {a n : BitVec w} {len : Nat} (h : InNet a n len) : Normal n len := (inNet_iff.1 h).1

theorem InNet.agree {a n : BitVec w} {len : Nat} (h : InNet a n len) : Agree len a n := (inNet_iff.1 h).2

/-- The base address of a network lies in it. -/
theorem Normal.inNet {n : BitVec w} {len : Nat} (h : Normal n len) : InNet n n len :=
  inNet_iff.2 ⟨h, Agree.refl _ _⟩

/-- Of two networks with a common address, the shorter contains the base of the longer. -/
theorem InNet.nested {a n m : BitVec w} {l k : Nat} (hn : InNet a n l) (hm : InNet a m k) (hl : l ≤ k) :
    InNet m n l :=
  inNet_iff.2 ⟨hn.normal, (hm.agree.symm.mono hl).trans hn.agree⟩

/-- An address of a network whose base lies in a shorter network lies in that network too. -/
theorem InNet.trans {a n m : BitVec w} {l k : Nat} (hm : InNet a m k) (hn : InNet m n l) (hl : l ≤ k) :
    InNet a n l :=
  inNet_iff.2 ⟨hn.normal, (hm.agree.mono hl).trans hn.agree⟩

theorem InNet.unique {a n m : BitVec w} {l : Nat} (hn : InNet a n l) (hm : InNet a m l) : n = m := by
  unfold InNet at hn hm
  rw [hn, hm]

theorem inNet_full {a n : BitVec w} : InNet a n w ↔ a = n := by
  simp only [InNet, mask_full, BitVec.and_allOnes]
  exact eq_comm

theorem inNet_zero {a n : BitVec w} : InNet a n 0 ↔ n = 0#w := by
  simp only [InNet, mask_zero, BitVec.and_zero]

/-- A network is an interval of addresses. -/
theorem Normal.inNet_iff_toNat {a n : BitVec w} {len : Nat} (hn : Normal n len) :
    InNet a n len ↔ n.toNat ≤ a.toNat ∧ a.toNat < n.toNat + 2 ^ (w - len) := by
  have hlow : n.toNat % 2 ^ (w - len) = 0 := by
    apply Nat.eq_of_testBit_eq
    intro i
    rw [Nat.testBit_mod_two_pow, Nat.zero_testBit, Bool.and_eq_false_iff]
    by_cases hi : i < w - len
    · exact Or.inr (normal_iff.1 hn i hi)
    · exact Or.inl (decide_eq_false hi)
  have hdiv : InNet a n len ↔ a.toNat / 2 ^ (w - len) = n.toNat / 2 ^ (w - len) := by
    rw [inNet_iff, and_iff_right hn]
    constructor
    · intro h
      apply Nat.eq_of_testBit_eq
      intro i
      rw [Nat.testBit_div_two_pow, Nat.testBit_div_two_pow]
      exact h (i + (w - len)) (by omega)
    · intro h i hi
      have := congrArg (fun m => m.testBit (i - (w - len))) h
      simp only [Nat.testBit_div_two_pow, Nat.sub_add_cancel hi] at this
      exact this
  have hpos : 0 < 2 ^ (w - len) := Nat.two_pow_pos _
  have hn' := Nat.div_add_mod n.toNat (2 ^ (w - len))
  have ha' := Nat.div_add_mod a.toNat (2 ^ (w - len))
  have hal := Nat.mod_lt a.toNat hpos
  rw [hlow, Nat.add_zero] at hn'
  rw [hdiv]
  constructor
  · intro h
    rw [h, hn'] at ha'
    omega
  · rintro ⟨h1, h2⟩
    refine (Nat.div_eq_of_lt_le ?_ ?_)
    · rw [Nat.mul_comm, hn']
      exact h1
    · rw [Nat.add_mul, Nat.mul_comm, hn', Nat.one_mul]
      exact h2

/-! ### Two networks overlap -/

/-- One of the networks `n/l` and `m/k` contains the base of the other. -/
def Overlap (n : BitVec w) (l : Nat) (m : BitVec w) (k : Nat) : Prop := InNet n m k ∨ InNet m n l

theorem Overlap.symm {n m : BitVec w} {l k : Nat} (h : Overlap n l m k) : Overlap m k n l := Or.symm h

/-- Networks with a common address overlap. -/
theorem InNet.overlap {a n m : BitVec w} {l k : Nat} (hn : InNet a n l) (hm : InNet a m k) : Overlap n l m k := by
  rcases Nat.le_total l k with h | h
  · exact Or.inr (hn.nested hm h)
  · exact Or.inl (hm.nested hn h)

/-- Overlapping networks, the first not longer: the base of the second lies in the first. -/
theorem Overlap.inNet_of_le {n m : BitVec w} {l k : Nat} (h : Overlap n l m k) (hl : l ≤ k) (hn : Normal n l) :
    InNet m n l := by
  rcases h with h | h
  · exact inNet_iff.2 ⟨hn, (h.agree.symm).mono hl⟩
  · exact h

end BitPrefix
