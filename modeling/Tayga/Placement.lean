import Tayga.Lookup
import Tayga.Nets

/-!
# Bit placement of static maps

The general path of a static map works word by word with 64-bit shifts.  It is one shift of the whole address
(`placeBits_eq`, `getLsbD_readBits`), and the equal-width fast path is the case of no trailing bits, so both directions
of a static map are described bit by bit (`getLsbD_staticAddr6`, `getLsbD_staticAddr4`).  From this the two directions
are inverse up to the bits behind the suffix (`staticAddr4_staticAddr6`, `staticAddr6_staticAddr4`).
-/

namespace Tayga

open BitPrefix

/-! ### Words -/

theorem getLsbD_word6 (x : In6) (j : Nat) {i : Nat} (hi : i < 32) :
    (word6 x j).getLsbD i = x.getLsbD (96 - 32 * j + i) := by
  rw [word6, BitVec.getLsbD_setWidth, BitVec.getLsbD_ushiftRight, decide_eq_true hi, Bool.true_and]

theorem getLsbD_ofWords6 (w0 w1 w2 w3 : BitVec 32) (i : Nat) : (ofWords6 w0 w1 w2 w3).getLsbD i =
    if i < 32 then w3.getLsbD i else if i < 64 then w2.getLsbD (i - 32)
    else if i < 96 then w1.getLsbD (i - 64) else w0.getLsbD (i - 96) := by
  simp only [ofWords6, BitVec.getLsbD_append]
  by_cases h1 : i < 32
  · simp [h1]
  · by_cases h2 : i < 64
    · simp [h1, h2, show i - 32 < 32 by omega]
    · by_cases h3 : i < 96
      · simp [h1, h2, h3, show ¬ i - 32 < 32 by omega, show i - 32 - 32 = i - 64 by omega, show i - 64 < 32 by omega]
      · simp [h1, h2, h3, show ¬ i - 32 < 32 by omega, show ¬ i - 32 - 32 < 32 by omega,
          show i - 32 - 32 - 32 = i - 96 by omega]

/-- An address is made of its words. -/
theorem ofWords6_word6 (x : In6) : ofWords6 (word6 x 0) (word6 x 1) (word6 x 2) (word6 x 3) = x := by
  apply BitVec.eq_of_getLsbD_eq
  intro i hi
  rw [getLsbD_ofWords6]
  split
  · rw [getLsbD_word6 x _ (by omega)]
    congr 1; omega
  · split
    · rw [getLsbD_word6 x _ (by omega)]
      congr 1; omega
    · split <;> rw [getLsbD_word6 x _ (by omega)] <;> congr 1 <;> omega

/-- Words in which one position is or-ed with `v` make an address or-ed with `v` at that position. -/
theorem getLsbD_ofWords6_fun (w : Nat → BitVec 32) {i : Nat} (hi : i < 128) :
    (ofWords6 (w 0) (w 1) (w 2) (w 3)).getLsbD i = (w (3 - i / 32)).getLsbD (i % 32) := by
  rw [getLsbD_ofWords6]
  split
  · rw [show 3 - i / 32 = 3 by omega, show i % 32 = i by omega]
  · split
    · rw [show 3 - i / 32 = 2 by omega, show i % 32 = i - 32 by omega]
    · split
      · rw [show 3 - i / 32 = 1 by omega, show i % 32 = i - 64 by omega]
      · rw [show 3 - i / 32 = 0 by omega, show i % 32 = i - 96 by omega]

/-! ### The general path as one shift -/

/-- The word the general path adds at word `j`, bit by bit. -/
private theorem getLsbD_placedWord {pos bits : Nat} (hb : bits ≤ 32) {suffix : BitVec 32}
    (hs : ∀ j, bits ≤ j → suffix.getLsbD j = false) {i : Nat} (hi : i < 128) (hfit : pos + bits ≤ 128) :
    (placedWord pos bits suffix (3 - i / 32)).getLsbD (i % 32) =
    (decide (128 - pos - bits ≤ i) && suffix.getLsbD (i - (128 - pos - bits))) := by
  have hmod : i % 32 < 32 := Nat.mod_lt _ (by omega)
  unfold placedWord
  simp only []
  split
  · rename_i hw
    simp only [BitVec.getLsbD_setWidth, BitVec.getLsbD_ushiftRight, BitVec.getLsbD_shiftLeft, hmod, decide_true,
      Bool.true_and]
    have e : 32 + i % 32 - (64 - pos % 32 - bits) = i - (128 - pos - bits) ∨ 32 + i % 32 < 64 - pos % 32 - bits := by
      omega
    rcases e with e | e
    · rw [e]
      by_cases hlow : 32 + i % 32 < 64 - pos % 32 - bits
      · simp [hlow, show ¬ 128 - pos - bits ≤ i by omega]
      · simp [hlow, show 128 - pos - bits ≤ i by omega, show 32 + i % 32 < 64 by omega]
        intro h
        by_contra hj
        rw [hs _ (by omega)] at h
        cases h
    · simp [e, show ¬ 128 - pos - bits ≤ i by omega]
  · split
    · rename_i hw hw'
      simp only [BitVec.getLsbD_setWidth, BitVec.getLsbD_shiftLeft, hmod, decide_true, Bool.true_and]
      by_cases hlow : i % 32 < 64 - pos % 32 - bits
      · simp [hlow, show ¬ 128 - pos - bits ≤ i by omega]
      · simp [hlow, show 128 - pos - bits ≤ i by omega, show i % 32 < 64 by omega,
          show i % 32 - (64 - pos % 32 - bits) = i - (128 - pos - bits) by omega]
        intro h
        by_contra hj
        rw [hs _ (by omega)] at h
        cases h
    · rename_i hw hw'
      rw [show (0 : BitVec 32).getLsbD (i % 32) = false from BitVec.getLsbD_zero]
      by_cases hlow : 128 - pos - bits ≤ i
      · rw [hs _ (by omega), Bool.and_false]
      · simp [hlow]

/-- The general path shifts the suffix to its place. -/
theorem placeBits_eq {pos bits : Nat} (hb : bits ≤ 32) (hfit : pos + bits ≤ 128) {suffix : BitVec 32}
    (hs : ∀ j, bits ≤ j → suffix.getLsbD j = false) (x : In6) :
    placeBits x pos bits suffix = x ||| suffix.setWidth 128 <<< (128 - pos - bits) := by
  apply BitVec.eq_of_getLsbD_eq
  intro i hi
  have hmod : i % 32 < 32 := Nat.mod_lt _ (by omega)
  unfold placeBits
  simp only []
  rw [getLsbD_ofWords6_fun (fun k => word6 x k ||| placedWord pos bits suffix k) hi, BitVec.getLsbD_or,
      getLsbD_placedWord hb hs hi hfit,
    getLsbD_word6 x _ hmod, BitVec.getLsbD_or, BitVec.getLsbD_shiftLeft, BitVec.getLsbD_setWidth,
    show 96 - 32 * (3 - i / 32) + i % 32 = i by omega]
  by_cases hlow : i < 128 - pos - bits
  · simp [hlow, show ¬ 128 - pos - bits ≤ i by omega]
  · simp [hlow, hi, show 128 - pos - bits ≤ i by omega, show i - (128 - pos - bits) < 128 by omega]

/-- The general path reads the suffix from its place. -/
theorem getLsbD_readBits {pos bits : Nat} (h0 : 0 < bits) (hb : bits ≤ 32) (hfit : pos + bits ≤ 128) (x : In6)
    (j : Nat) : (readBits x pos bits).getLsbD j = (decide (j < bits) && x.getLsbD (128 - pos - bits + j)) := by
  unfold readBits
  simp only [BitVec.getLsbD_setWidth, BitVec.getLsbD_and, BitVec.getLsbD_ushiftRight, BitVec.getLsbD_allOnes]
  by_cases hj : j < bits
  · have h32 : j < 32 := by omega
    have hm : 64 - bits + j < 64 := by omega
    simp only [h32, hj, hm, decide_true, Bool.true_and, Bool.and_true]
    rw [BitVec.getLsbD_or, BitVec.getLsbD_shiftLeft, BitVec.getLsbD_setWidth]
    by_cases hw : 64 - pos % 32 - bits + j < 32
    · have hoff : 32 < pos % 32 + bits := by omega
      rw [if_pos hoff, BitVec.getLsbD_setWidth, getLsbD_word6 x _ hw]
      simp only [hw, decide_true, Bool.not_true, Bool.and_false, Bool.false_and, Bool.false_or,
        show 64 - pos % 32 - bits + j < 64 by omega, Bool.true_and]
      congr 1; omega
    · have hz : (if 32 < pos % 32 + bits then (word6 x (pos / 32 + 1)).setWidth 64 else (0 : BitVec 64)).getLsbD
          (64 - pos % 32 - bits + j) = false := by
        split
        · rw [BitVec.getLsbD_setWidth, BitVec.getLsbD_of_ge _ _ (by omega), Bool.and_false]
        · exact BitVec.getLsbD_zero
      rw [hz, Bool.or_false, getLsbD_word6 x _ (by omega)]
      simp only [hw, decide_false, Bool.not_false, show 64 - pos % 32 - bits + j < 64 by omega, decide_true,
        Bool.true_and, show 64 - pos % 32 - bits + j - 32 < 64 by omega]
      congr 1; omega
  · simp [hj, show ¬ 64 - bits + j < 64 by omega]

/-! ### The two directions of a static map -/

/-- The host bits of the IPv4 network. -/
def MapStatic.bits (s : MapStatic) : Nat := 32 - s.map4.prefixLen

/-- The address bits behind the suffix. -/
def MapStatic.tail (s : MapStatic) : Nat := 128 - s.map6.prefixLen - s.bits

/-- Both halves are networks and the IPv4 suffix fits behind the IPv6 prefix. -/
structure MapStatic.Fits (s : MapStatic) : Prop where
  wf4 : s.map4.Wf
  wf6 : s.map6.Wf
  fits : s.map6.prefixLen + s.bits ≤ 128

/-- The canonical form of an address under a static map: the bits behind the suffix are zero. -/
def MapStatic.canonical (s : MapStatic) (x : In6) : In6 := x &&& ip6Mask (s.map6.prefixLen + s.bits)

variable {s : MapStatic}

theorem MapStatic.Fits.bits_eq (h : s.Fits) : s.bits = 32 - s.map4.prefixLen ∧ s.map4.prefixLen ≤ 32 :=
  ⟨rfl, h.wf4.len_le⟩

theorem getLsbD_suffix4 (h : s.Fits) (a : In4) {j : Nat} (hj : j < 32) :
    (suffix4 s.map4 a).getLsbD j = (decide (j < s.bits) && a.getLsbD j) := by
  have hl := h.wf4.len_le
  rw [suffix4, h.wf4.mask_eq, ip4Mask_eq hl, BitVec.getLsbD_and, BitVec.getLsbD_not, getLsbD_mask]
  unfold MapStatic.bits
  by_cases hb : j < 32 - s.map4.prefixLen
  · simp [hb, hj, show ¬ 32 - s.map4.prefixLen ≤ j by omega]
  · simp [hb, hj, show 32 - s.map4.prefixLen ≤ j by omega]

theorem getLsbD_staticAddr6 (h : s.Fits) (a : In4) {i : Nat} (hi : i < 128) : (staticAddr6 s a).getLsbD i =
    (s.map6.addr.getLsbD i || (decide (s.tail ≤ i) && decide (i - s.tail < s.bits) && a.getLsbD (i - s.tail))) := by
  obtain ⟨hb, hl⟩ := h.bits_eq
  have hf := h.fits
  have hsuf : ∀ j, s.bits ≤ j → (suffix4 s.map4 a).getLsbD j = false := by
    intro j hj
    by_cases h32 : j < 32
    · rw [getLsbD_suffix4 h a h32]
      simp [show ¬ j < s.bits by omega]
    · exact BitVec.getLsbD_of_ge _ _ (by omega)
  unfold staticAddr6
  simp only []
  rw [← hb]
  by_cases heq : s.map6.prefixLen + s.bits = 128
  · have ht : s.tail = 0 := by unfold MapStatic.tail; omega
    rw [if_pos heq, BitVec.getLsbD_or, getLsbD_ofWords6, ht]
    by_cases h32 : i < 32
    · rw [if_pos h32, getLsbD_suffix4 h a h32]
      simp
    · simp [h32, show ¬ i < s.bits by omega]
  · rw [if_neg heq]
    by_cases h0 : 0 < s.bits
    · rw [if_pos h0, placeBits_eq (by omega) hf hsuf, BitVec.getLsbD_or, BitVec.getLsbD_shiftLeft,
        BitVec.getLsbD_setWidth, ← MapStatic.tail]
      congr 1
      by_cases hlow : i < s.tail
      · simp [hlow, show ¬ s.tail ≤ i by omega]
      · by_cases h32 : i - s.tail < 32
        · rw [getLsbD_suffix4 h a h32]
          simp [hlow, hi, show s.tail ≤ i by omega, show i - s.tail < 128 by omega]
        · simp [hlow, hi, show s.tail ≤ i by omega, BitVec.getLsbD_of_ge _ _ (Nat.le_of_not_lt h32)]
    · rw [if_neg h0]
      simp [show ¬ i - s.tail < s.bits by omega]

theorem getLsbD_staticAddr4 (h : s.Fits) (x : In6) {j : Nat} (hj : j < 32) : (staticAddr4 s x).getLsbD j =
    (s.map4.addr.getLsbD j || (decide (j < s.bits) && x.getLsbD (s.tail + j))) := by
  obtain ⟨hb, hl⟩ := h.bits_eq
  have hf := h.fits
  unfold staticAddr4
  simp only []
  rw [← hb, BitVec.getLsbD_or]
  congr 1
  by_cases heq : s.map6.prefixLen + s.bits = 128
  · have ht : s.tail = 0 := by unfold MapStatic.tail; omega
    rw [if_pos heq, ht]
    have := getLsbD_suffix4 h (word6 x 3) hj
    rw [suffix4, getLsbD_word6 x 3 hj] at this
    rw [this]
  · rw [if_neg heq]
    by_cases h0 : 0 < s.bits
    · rw [if_pos h0, getLsbD_readBits h0 (by omega) hf]
      rfl
    · rw [if_neg h0]
      simp [show ¬ j < s.bits by omega]

/-- Translated addresses lie in the IPv6 network of the map. -/
theorem covers_staticAddr6 (h : s.Fits) (a : In4) : s.map6.covers (staticAddr6 s a) = true := by
  rw [h.wf6.covers_iff, inNet_iff]
  refine ⟨h.wf6.normal, ?_⟩
  intro i hi
  by_cases h128 : i < 128
  · have : ¬ i - s.tail < s.bits := by
      have := h.fits
      unfold MapStatic.tail
      omega
    rw [getLsbD_staticAddr6 h a h128]
    simp [this]
  · rw [BitVec.getLsbD_of_ge _ _ (by omega), BitVec.getLsbD_of_ge _ _ (by omega)]

/-- Translated addresses lie in the IPv4 network of the map. -/
theorem covers_staticAddr4 (h : s.Fits) (x : In6) : s.map4.covers (staticAddr4 s x) = true := by
  rw [h.wf4.covers_iff, inNet_iff]
  refine ⟨h.wf4.normal, ?_⟩
  intro j hj
  by_cases h32 : j < 32
  · rw [getLsbD_staticAddr4 h x h32]
    simp [show ¬ j < s.bits by unfold MapStatic.bits; omega]
  · rw [BitVec.getLsbD_of_ge _ _ (by omega), BitVec.getLsbD_of_ge _ _ (by omega)]

/-- To IPv6 and back gives the address back. -/
theorem staticAddr4_staticAddr6 (h : s.Fits) {a : In4} (ha : s.map4.covers a = true) :
    staticAddr4 s (staticAddr6 s a) = a := by
  have hagree := (h.wf4.covers_iff.1 ha).agree
  have hf := h.fits
  apply BitVec.eq_of_getLsbD_eq
  intro j hj
  rw [getLsbD_staticAddr4 h _ hj]
  by_cases hb : j < s.bits
  · have h6 : s.map6.addr.getLsbD (s.tail + j) = false :=
      normal_iff.1 h.wf6.normal _ (by unfold MapStatic.tail; omega)
    have h4 : s.map4.addr.getLsbD j = false := normal_iff.1 h.wf4.normal _ hb
    rw [getLsbD_staticAddr6 h a (by unfold MapStatic.tail; omega), h4, h6]
    simp [hb]
  · rw [hagree j (by unfold MapStatic.bits at hb; omega)]
    simp [hb]

/-- To IPv4 and back gives the canonical form. -/
theorem staticAddr6_staticAddr4 (h : s.Fits) {x : In6} (hx : s.map6.covers x = true) :
    staticAddr6 s (staticAddr4 s x) = s.canonical x := by
  have hagree := (h.wf6.covers_iff.1 hx).agree
  have hf := h.fits
  apply BitVec.eq_of_getLsbD_eq
  intro i hi
  rw [getLsbD_staticAddr6 h _ hi, MapStatic.canonical, BitVec.getLsbD_and, ip6Mask_eq hf, getLsbD_mask]
  have ht : s.tail = 128 - (s.map6.prefixLen + s.bits) := by unfold MapStatic.tail; omega
  by_cases hlow : s.tail ≤ i
  · by_cases hb : i - s.tail < s.bits
    · have h4 : s.map4.addr.getLsbD (i - s.tail) = false := normal_iff.1 h.wf4.normal _ hb
      have h6 : s.map6.addr.getLsbD i = false := normal_iff.1 h.wf6.normal _ (by omega)
      have h32 : i - s.tail < 32 := by have := h.bits_eq; omega
      rw [getLsbD_staticAddr4 h x h32, h4, h6, show s.tail + (i - s.tail) = i by omega]
      simp [hlow, hb, hi, ← ht]
    · rw [hagree i (by omega)]
      simp [hb, hi, ← ht, hlow]
  · have h6 : s.map6.addr.getLsbD i = false := normal_iff.1 h.wf6.normal _ (by omega)
    rw [h6]
    simp [hlow, ← ht]

/-- The canonical form lies in the network. -/
theorem covers_canonical (h : s.Fits) {x : In6} (hx : s.map6.covers x = true) : s.map6.covers (s.canonical x) = true
    := by
  rw [← staticAddr6_staticAddr4 h hx]
  exact covers_staticAddr6 h _

/-- Addresses of a map whose pairs may be cached are in canonical form. -/
theorem canonical_of_cachePair (hc : s.cachePair = true) (x : In6) : s.canonical x = x := by
  have : s.map6.prefixLen + s.bits = 128 := by simpa [MapStatic.cachePair, MapStatic.bits] using hc
  rw [MapStatic.canonical, this, ip6Mask_eq (by omega), mask_full, BitVec.and_allOnes]

/-- A host map translates to its base addresses. -/
theorem staticAddr6_of_host (h : s.Fits) (hb : s.bits = 0) (a : In4) : staticAddr6 s a = s.map6.addr := by
  apply BitVec.eq_of_getLsbD_eq
  intro i hi
  rw [getLsbD_staticAddr6 h a hi]
  simp [show ¬ i - s.tail < s.bits by omega]

theorem staticAddr4_of_host (h : s.Fits) (hb : s.bits = 0) (x : In6) : staticAddr4 s x = s.map4.addr := by
  apply BitVec.eq_of_getLsbD_eq
  intro j hj
  rw [getLsbD_staticAddr4 h x hj]
  simp [show ¬ j < s.bits by omega]

end Tayga
