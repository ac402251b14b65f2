import Tayga.Checksum
import Tayga.Codec

/-!
# What the checksum functions compute

Every checksum function is described by the residue of its result: `scale` is what the byte order of the machine
multiplies a sum with, and the result is the (negated) sum of the bytes or addresses in network order.  A byte string
`Verifies` if the sum of its words has all bits set, as the receiver of a checksum tests it.
-/

namespace Tayga

open OnesComplement

/-- What the byte order of the machine multiplies a sum with. -/
def scale (e : Endian) : ZMod 65535 :=
  match e with
  | .big => 1
  | .little => 256

theorem scale_mul_scale (e : Endian) : scale e * scale e = 1 := by
  cases e <;> rfl

/-- The test of the receiver: the one's complement sum has all bits set. -/
def Verifies (d : List Byte) : Prop := ofSum (sumWords d) = 0xffff

instance : DecidablePred Verifies := fun _ => inferInstanceAs (Decidable (_ = _))

theorem verifies_iff {d : List Byte} : Verifies d ↔ (sumWords d : ZMod 65535) = 0 ∧ sumWords d ≠ 0 := by
  rw [Verifies, ← residue_ofSum, residue_eq_zero, ne_eq, ← ofSum_eq_zero]
  constructor
  · intro h
    rw [h]
    exact ⟨Or.inr rfl, by decide⟩
  · rintro ⟨h | h, hne⟩
    · exact absurd h hne
    · exact h

/-! ### Byte order -/

@[simp] theorem residue_htons (e : Endian) (x : BitVec 16) : residue (htons e x) = scale e * residue x := by
  cases e
  · exact (one_mul _).symm
  · exact residue_swap x

@[simp] theorem htons_htons (e : Endian) (x : BitVec 16) : htons e (htons e x) = x := by
  cases e
  · rfl
  · exact swap_swap x

theorem htons_eq_iff {e : Endian} {x y : BitVec 16} : htons e x = y ↔ x = htons e y :=
  ⟨fun h => by rw [← h, htons_htons], fun h => by rw [h, htons_htons]⟩

theorem htons_zero (e : Endian) : htons e 0 = 0 := by
  cases e <;> decide

theorem htons_top (e : Endian) : htons e 0xffff = 0xffff := by
  cases e <;> decide

theorem htons_ne_zero {e : Endian} {x : BitVec 16} : htons e x = 0 ↔ x = 0 := by
  rw [htons_eq_iff, htons_zero]

private theorem cast_sumRaw (e : Endian) (d : List Byte) :
    (sumRaw e d : ZMod 65535) = scale e * (sumWords d : ZMod 65535) := by
  cases e
  · exact (one_mul _).symm
  · exact cast_sumSwapped d

private theorem cast_foldl {d : List Byte} (h : d.length % 2 = 0) (n : Nat) :
    ((d.foldl (fun n b => n * 256 + b.toNat) n : Nat) : ZMod 65535) = n + (sumWords d : ZMod 65535) := by
  fun_induction sumWords d generalizing n with
  | case1 => simp
  | case2 b => exact absurd h (by simp)
  | case3 b c d ih =>
    rw [List.foldl_cons, List.foldl_cons, ih (by rw [List.length_cons, List.length_cons] at h; omega)]
    push_cast
    linear_combination (n : ZMod 65535) * wrap

private theorem cast_foldr {d : List Byte} (h : d.length % 2 = 0) :
    ((d.foldr (fun b n => b.toNat + 256 * n) 0 : Nat) : ZMod 65535) = (sumSwapped d : ZMod 65535) := by
  fun_induction sumSwapped d with
  | case1 => rfl
  | case2 b => exact absurd h (by simp)
  | case3 b c d ih =>
    have ih := ih (by rw [List.length_cons, List.length_cons] at h; omega)
    rw [List.foldr_cons, List.foldr_cons]
    push_cast at ih ⊢
    rw [ih]
    linear_combination (sumSwapped d : ZMod 65535) * wrap

/-- A word of even size counts like the 16-bit words it is made of. -/
private theorem cast_loadRaw (e : Endian) {d : List Byte} (h : d.length % 2 = 0) :
    (loadRaw e d : ZMod 65535) = scale e * (sumWords d : ZMod 65535) := by
  cases e
  · rw [loadRaw, cast_foldl h, Nat.cast_zero, zero_add, scale, one_mul]
  · rw [loadRaw, cast_foldr h, cast_sumSwapped, scale]

/-! ### `ip_checksum` -/

private theorem mod_add_div_32 (n : Nat) : ((n % 2 ^ 32 + n / 2 ^ 32 : Nat) : ZMod 65535) = n := by
  have h : (n : ZMod 65535) = ((n % 2 ^ 32 + 2 ^ 32 * (n / 2 ^ 32) : Nat) : ZMod 65535) := by rw [Nat.mod_add_div]
  have h1 : (4294967296 : ZMod 65535) = 1 := rfl
  rw [h]
  push_cast
  rw [h1, one_mul]

/-- The carry out of 64 bits is brought around. -/
private theorem carry64 (sum word : BitVec 64) :
    (((if sum + word < word then sum + word + 1 else sum + word).toNat : Nat) : ZMod 65535) =
      (sum.toNat : ZMod 65535) + (word.toNat : ZMod 65535) ∧
    (sum ≠ 0 → (if sum + word < word then sum + word + 1 else sum + word) ≠ 0) := by
  have hs := sum.isLt
  have hw := word.isLt
  have hadd : (sum + word).toNat = (sum.toNat + word.toNat) % 2 ^ 64 := BitVec.toNat_add _ _
  have hlt : sum + word < word ↔ 2 ^ 64 ≤ sum.toNat + word.toNat := by
    rw [BitVec.lt_def, hadd]
    omega
  by_cases h : 2 ^ 64 ≤ sum.toNat + word.toNat
  · rw [if_pos (hlt.2 h)]
    have h1 : (sum + word + 1).toNat = sum.toNat + word.toNat - 2 ^ 64 + 1 := by
      rw [BitVec.toNat_add, hadd]
      have : (1 : BitVec 64).toNat = 1 := rfl
      omega
    constructor
    · rw [h1, ← Nat.cast_add]
      refine (ZMod.natCast_eq_natCast_iff' _ _ _).2 ?_
      omega
    · intro _ h0
      rw [h0] at h1
      exact absurd h1.symm (Nat.succ_ne_zero _)
  · rw [if_neg (fun h' => h (hlt.1 h'))]
    have h1 : (sum + word).toNat = sum.toNat + word.toNat := by omega
    constructor
    · rw [h1, Nat.cast_add]
    · intro hne h0
      rw [h0] at h1
      refine hne (BitVec.eq_of_toNat_eq ?_)
      have : (0 : BitVec 64).toNat = 0 := rfl
      omega

private theorem sumDwords_spec (e : Endian) (sum : BitVec 64) (d : List Byte) :
    ((sumDwords e sum d).1.toNat : ZMod 65535) + scale e * (sumWords (sumDwords e sum d).2 : ZMod 65535) =
      (sum.toNat : ZMod 65535) + scale e * (sumWords d : ZMod 65535) ∧
    (sum ≠ 0 → (sumDwords e sum d).1 ≠ 0) ∧ (sumDwords e sum d).2.length < 8 := by
  fun_induction sumDwords e sum d with
  | case1 sum b0 b1 b2 b3 b4 b5 b6 b7 d word s ih =>
    obtain ⟨hc, hn⟩ := carry64 sum word
    obtain ⟨h1, h2, h3⟩ := ih
    refine ⟨?_, fun h => h2 (hn h), h3⟩
    have hword : (word.toNat : ZMod 65535) = scale e * (sumWords [b0, b1, b2, b3, b4, b5, b6, b7] : ZMod 65535) := by
      rw [← cast_loadRaw e (by simp), BitVec.toNat_ofNat, Nat.mod_eq_of_lt]
      have := b0.isLt; have := b1.isLt; have := b2.isLt; have := b3.isLt
      have := b4.isLt; have := b5.isLt; have := b6.isLt; have := b7.isLt
      cases e <;> simp [loadRaw] <;> omega
    have hsplit : sumWords (b0 :: b1 :: b2 :: b3 :: b4 :: b5 :: b6 :: b7 :: d) =
        sumWords [b0, b1, b2, b3, b4, b5, b6, b7] + sumWords d :=
      @sumWords_append [b0, b1, b2, b3, b4, b5, b6, b7] (by simp) d
    rw [h1, hc, hword, hsplit, Nat.cast_add]
    ring
  | case2 sum d hd =>
    refine ⟨rfl, id, ?_⟩
    by_contra hlen
    rcases d with _ | ⟨b0, _ | ⟨b1, _ | ⟨b2, _ | ⟨b3, _ | ⟨b4, _ | ⟨b5, _ | ⟨b6, _ | ⟨b7, d⟩⟩⟩⟩⟩⟩⟩⟩
    · exact hlen (by simp)
    · exact hlen (by simp)
    · exact hlen (by simp)
    · exact hlen (by simp)
    · exact hlen (by simp)
    · exact hlen (by simp)
    · exact hlen (by simp)
    · exact hlen (by simp)
    · exact hd _ _ _ _ _ _ _ _ _ rfl

private theorem addWord_spec (e : Endian) {k : Nat} (hk : k % 2 = 0) (s : Nat × List Byte) :
    ((addWord e k s).1 : ZMod 65535) + scale e * (sumWords (addWord e k s).2 : ZMod 65535) =
      (s.1 : ZMod 65535) + scale e * (sumWords s.2 : ZMod 65535) ∧ (s.1 ≠ 0 → (addWord e k s).1 ≠ 0) ∧
    ((addWord e k s).2.length < k ∨ (addWord e k s).2.length + k = s.2.length) := by
  unfold addWord
  split
  · rename_i hle
    have hlen : (s.2.take k).length % 2 = 0 := by
      rw [List.length_take, Nat.min_eq_left hle, hk]
    refine ⟨?_, ?_, Or.inr ?_⟩
    · conv_rhs => rw [← List.take_append_drop k s.2, sumWords_append hlen]
      push_cast
      rw [cast_loadRaw e hlen]
      ring
    · intro h
      dsimp only
      omega
    · rw [List.length_drop]
      omega
  · exact ⟨rfl, id, Or.inl (by omega)⟩

private theorem addByte_spec (e : Endian) {s : Nat × List Byte} (hs : s.2.length < 2) :
    (addByte e s : ZMod 65535) = (s.1 : ZMod 65535) + scale e * (sumWords s.2 : ZMod 65535) ∧
    (s.1 ≠ 0 → addByte e s ≠ 0) := by
  obtain ⟨sum, d⟩ := s
  rcases d with _ | ⟨b, _ | ⟨c, d⟩⟩
  · simp [addByte, sumWords]
  · have hlast : ((bigLittle e (b.toNat * 256) b.toNat : Nat) : ZMod 65535) =
        scale e * (sumWords [b] : ZMod 65535) := by
      cases e
      · rw [bigLittle, sumWords, scale, one_mul]
      · rw [bigLittle, sumWords, scale]
        push_cast
        linear_combination (-(b.toNat : ZMod 65535)) * wrap
    refine ⟨by rw [addByte, Nat.cast_add, hlast], fun h => ?_⟩
    rw [addByte]
    dsimp only at h ⊢
    omega
  · simp only [List.length_cons] at hs
    omega

private theorem ipChecksum_eq (e : Endian) (d : List Byte) : ∃ n : Nat, n ≠ 0 ∧ ipChecksum e d = ~~~ofSum n ∧
    (n : ZMod 65535) = scale e * (sumWords d : ZMod 65535) := by
  obtain ⟨h1, h2, h3⟩ := sumDwords_spec e 0xffff d
  generalize hs : sumDwords e 0xffff d = s at h1 h2 h3
  have h0 : s.1.toNat ≠ 0 := fun h => h2 (by decide) (BitVec.eq_of_toNat_eq h)
  let n := s.1.toNat % 2 ^ 32 + s.1.toNat / 2 ^ 32
  let m := n % 2 ^ 32 + n / 2 ^ 32
  have hm : (m : ZMod 65535) = s.1.toNat := (mod_add_div_32 n).trans (mod_add_div_32 _)
  have hm0 : m ≠ 0 := by omega
  obtain ⟨a1, a2, a3⟩ := addWord_spec e (k := 4) rfl (m, s.2)
  obtain ⟨b1, b2, b3⟩ := addWord_spec e (k := 2) rfl (addWord e 4 (m, s.2))
  obtain ⟨c1, c2⟩ := addByte_spec e (s := addWord e 2 (addWord e 4 (m, s.2))) (by dsimp only at a3; omega)
  refine ⟨_, c2 (b2 (a2 hm0)), by rw [ipChecksum, hs], ?_⟩
  rw [c1, b1, a1]
  dsimp only
  rw [hm, h1]
  have : ((0xffff : BitVec 64).toNat : ZMod 65535) = 0 := rfl
  rw [this, zero_add]

/-- **`ip_checksum` is the negated sum of the words, and never the zero with all bits set.** -/
theorem residue_ipChecksum (e : Endian) (d : List Byte) :
    residue (ipChecksum e d) = -(scale e * (sumWords d : ZMod 65535)) := by
  obtain ⟨n, -, h, hn⟩ := ipChecksum_eq e d
  rw [h, residue_not, residue_ofSum, hn]

theorem ipChecksum_ne_top (e : Endian) (d : List Byte) : ipChecksum e d ≠ 0xffff := by
  obtain ⟨n, hn, h, -⟩ := ipChecksum_eq e d
  rw [h]
  intro h
  refine hn (ofSum_eq_zero.1 ?_)
  rw [← BitVec.not_not (b := ofSum n), h]
  rfl

/-! ### `ones_add` and the header checksum -/

theorem onesAdd_eq (a b : BitVec 16) : onesAdd a b = ~~~plus (~~~a) (~~~b) := rfl

@[simp] theorem residue_onesAdd (a b : BitVec 16) : residue (onesAdd a b) = residue a + residue b := by
  rw [onesAdd_eq, residue_not, residue_plus, residue_not, residue_not]
  ring

theorem onesAdd_eq_top {a b : BitVec 16} : onesAdd a b = 0xffff ↔ a = 0xffff ∧ b = 0xffff := by
  have key : ∀ x : BitVec 16, ~~~x = 0 ↔ x = 0xffff := by
    intro x
    constructor
    · intro h
      rw [← BitVec.not_not (b := x), h]
      rfl
    · rintro rfl
      rfl
  rw [onesAdd_eq, ← key, BitVec.not_not, plus_eq_zero, key, key]

/-! ### Numbers and addresses in a sum -/

theorem sumWords_be16 (x : BitVec 16) : sumWords (be16 x) = x.toNat := by
  have hx := x.isLt
  simp only [be16, sumWords, BitVec.toNat_setWidth, BitVec.toNat_ushiftRight, Nat.shiftRight_eq_div_pow]
  omega

theorem length_be16 (x : BitVec 16) : (be16 x).length = 2 := rfl

theorem length_be32 (x : BitVec 32) : (be32 x).length = 4 := rfl

theorem cast_sumWords_be32 (x : BitVec 32) : (sumWords (be32 x) : ZMod 65535) = x.toNat := by
  have hx := congrArg (fun y : BitVec 32 => (y.toNat : ZMod 65535)) (ofBytes4_byte4 x)
  simp only [toNat_ofBytes4] at hx
  push_cast at hx
  rw [← hx]
  simp only [be32, sumWords]
  push_cast
  linear_combination (-((byte4 x 0).toNat * 256 + (byte4 x 1).toNat : ZMod 65535)) * wrap

theorem toNat_word6 (a : In6) (i : Nat) : (word6 a i).toNat = a.toNat / 2 ^ (96 - 32 * i) % 2 ^ 32 := by
  rw [word6, BitVec.toNat_setWidth, BitVec.toNat_ushiftRight, Nat.shiftRight_eq_div_pow]

theorem cast_words6 (a : In6) : ((word6 a 0).toNat + (word6 a 1).toNat + (word6 a 2).toNat + (word6 a 3).toNat :
    ZMod 65535) = a.toNat := by
  have ha := a.isLt
  have h2 : a.toNat / 2 ^ 64 = a.toNat / 2 ^ 32 / 2 ^ 32 := by
    rw [Nat.div_div_eq_div_mul, ← Nat.pow_add]
  have h3 : a.toNat / 2 ^ 96 = a.toNat / 2 ^ 64 / 2 ^ 32 := by
    rw [Nat.div_div_eq_div_mul, ← Nat.pow_add]
  have e1 := mod_add_div_32 a.toNat
  have e2 := mod_add_div_32 (a.toNat / 2 ^ 32)
  have e3 := mod_add_div_32 (a.toNat / 2 ^ 64)
  rw [← h2] at e2
  rw [← h3] at e3
  have h4 : a.toNat / 2 ^ (96 - 32 * 0) % 2 ^ 32 = a.toNat / 2 ^ 96 := Nat.mod_eq_of_lt (by omega)
  rw [toNat_word6, toNat_word6, toNat_word6, toNat_word6, h4]
  simp only [Nat.reduceMul, Nat.reduceSub, Nat.pow_zero, Nat.div_one]
  rw [Nat.cast_add] at e1 e2 e3
  linear_combination e1 + e2 + e3

theorem cast_sumWords_beIn6 (a : In6) : (sumWords (beIn6 a) : ZMod 65535) = a.toNat := by
  rw [beIn6, sumWords_append (by simp [length_be32]), sumWords_append (by simp [length_be32]),
    sumWords_append (by simp [length_be32])]
  push_cast
  rw [cast_sumWords_be32, cast_sumWords_be32, cast_sumWords_be32, cast_sumWords_be32, cast_words6]

/-- The machine's view of a word counts as the word times the scale. -/
private theorem cast_rawWord (e : Endian) (w : BitVec 32) : ((rawWord e w).toNat : ZMod 65535) = scale e * w.toNat := by
  cases e
  · exact (one_mul _).symm
  · have hw := congrArg (fun y : BitVec 32 => (y.toNat : ZMod 65535)) (ofBytes4_byte4 w)
    simp only [toNat_ofBytes4] at hw
    push_cast at hw
    rw [← hw, rawWord, toNat_ofBytes4, scale]
    push_cast
    linear_combination (256 * (byte4 w 3).toNat - 256 * (byte4 w 1).toNat - 65537 * (byte4 w 0).toNat : ZMod 65535) *
      wrap

/-- The halves of a word count like the word. -/
theorem cast_halves (w : BitVec 32) :
    ((w >>> 16).toNat : ZMod 65535) + ((w &&& 0xffff).toNat : ZMod 65535) = w.toNat := by
  have h : (w &&& 0xffff).toNat = w.toNat % 65536 := by
    rw [BitVec.toNat_and]
    exact Nat.and_two_pow_sub_one_eq_mod w.toNat 16
  rw [h, BitVec.toNat_ushiftRight, Nat.shiftRight_eq_div_pow, add_comm, ← Nat.cast_add]
  exact cast_carry _

/-! ### Pseudo-headers -/

/-- The sum of an IPv4 pseudo-header. -/
def pseudo4 (src dest : In4) (len : Nat) (proto : Byte) : ZMod 65535 := src.toNat + dest.toNat + len + proto.toNat

/-- The sum of an IPv6 pseudo-header. -/
def pseudo6 (src dest : In6) (len : Nat) (proto : Byte) : ZMod 65535 := src.toNat + dest.toNat + len + proto.toNat

private theorem residue_proto (proto : Byte) : residue (proto.setWidth 16) = (proto.toNat : ZMod 65535) := by
  have := proto.isLt
  rw [residue, BitVec.toNat_setWidth, Nat.mod_eq_of_lt (by omega)]

theorem residue_ip4Checksum (e : Endian) (ip4 : Ip4) (len : BitVec 32) (proto : Byte) :
    residue (ip4Checksum e ip4 len proto) = -(scale e * pseudo4 ip4.src ip4.dest len.toNat proto) := by
  have h := cast_halves (rawWord e len)
  have hp : ((htons e (proto.setWidth 16)).toNat : ZMod 65535) = scale e * proto.toNat := by
    rw [← residue_proto, ← residue_htons, residue]
  rw [ip4Checksum, residue_not, residue_ofSum]
  push_cast
  rw [cast_sumRaw, sumWords_append (by simp [length_be32]), hp, Nat.cast_add, cast_sumWords_be32, cast_sumWords_be32,
    pseudo4]
  rw [cast_rawWord] at h
  linear_combination -h

theorem residue_ip6Checksum (e : Endian) (ip6 : Ip6) (len : BitVec 32) (proto : Byte) :
    residue (ip6Checksum e ip6 len proto) = -(scale e * pseudo6 ip6.src ip6.dest len.toNat proto) := by
  have h := cast_halves (rawWord e len)
  have hp : ((htons e (proto.setWidth 16)).toNat : ZMod 65535) = scale e * proto.toNat := by
    rw [← residue_proto, ← residue_htons, residue]
  rw [ip6Checksum, residue_not, residue_ofSum]
  push_cast
  rw [cast_sumRaw, sumWords_append (by simp [length_beIn6]), hp, Nat.cast_add, cast_sumWords_beIn6, cast_sumWords_beIn6,
    pseudo6]
  rw [cast_rawWord] at h
  linear_combination -h

/-- **`convert_cksum` is the change of the sum of the addresses.** -/
theorem residue_convertCksum (e : Endian) (ip6 : Ip6) (ip4 : Ip4) : residue (convertCksum e ip6 ip4) =
    scale e * (ip6.src.toNat + ip6.dest.toNat - ip4.src.toNat - ip4.dest.toNat) := by
  have hnot : ∀ w : BitVec 32, ((~~~w).toNat : ZMod 65535) = -(w.toNat : ZMod 65535) := by
    intro w
    have hw := w.isLt
    rw [eq_neg_iff_add_eq_zero, ← Nat.cast_add, natCast_eq_zero, BitVec.toNat_not]
    omega
  have hsum : ∀ n : Nat, n ≤ 10 * (2 ^ 32 - 1) → residue (BitVec.ofNat 16
      (let sum := if 0xffffffff < n then n % 2 ^ 32 + n / 2 ^ 32 else n
       let sum := if 0xffff < sum then sum % 65536 + sum / 65536 else sum
       if 0xffff < sum then sum % 65536 + sum / 65536 else sum)) = (n : ZMod 65535) := by
    intro n hn
    have h1 : ((if 0xffffffff < n then n % 2 ^ 32 + n / 2 ^ 32 else n : Nat) : ZMod 65535) = n := by
      split
      · exact mod_add_div_32 n
      · rfl
    have h2 : ∀ m : Nat, ((if 0xffff < m then m % 65536 + m / 65536 else m : Nat) : ZMod 65535) = m := by
      intro m
      split
      · exact cast_carry m
      · rfl
    dsimp only
    rw [residue_ofNat, h2, h2, h1]
    have hle : (if 0xffffffff < n then n % 2 ^ 32 + n / 2 ^ 32 else n) ≤ 2 ^ 32 + 8 := by
      split <;> omega
    generalize (if 0xffffffff < n then n % 2 ^ 32 + n / 2 ^ 32 else n) = m at hle
    have hle : (if 0xffff < m then m % 65536 + m / 65536 else m) ≤ 2 ^ 17 - 2 := by
      split <;> omega
    generalize (if 0xffff < m then m % 65536 + m / 65536 else m) = m at hle
    split <;> omega
  rw [convertCksum, hsum]
  · push_cast
    simp only [hnot, cast_rawWord]
    have hs := cast_words6 ip6.src
    have hd := cast_words6 ip6.dest
    linear_combination scale e * hs + scale e * hd
  · have hlt : ∀ w : BitVec 32, w.toNat ≤ 2 ^ 32 - 1 := fun w => Nat.le_sub_one_of_lt w.isLt
    have := hlt (~~~rawWord e ip4.src); have := hlt (~~~rawWord e ip4.dest)
    have := hlt (rawWord e (word6 ip6.src 0)); have := hlt (rawWord e (word6 ip6.src 1))
    have := hlt (rawWord e (word6 ip6.src 2)); have := hlt (rawWord e (word6 ip6.src 3))
    have := hlt (rawWord e (word6 ip6.dest 0)); have := hlt (rawWord e (word6 ip6.dest 1))
    have := hlt (rawWord e (word6 ip6.dest 2)); have := hlt (rawWord e (word6 ip6.dest 3))
    dsimp only
    omega

/-! ### Headers in a sum -/

theorem length_ip4 (h : Ip4) : h.toBytes.length = 20 := rfl

theorem length_ip6 (h : Ip6) : h.toBytes.length = 40 := rfl

theorem length_ip6Frag (h : Ip6Frag) : h.toBytes.length = 8 := rfl

theorem length_icmp (h : Icmp) : h.toBytes.length = 8 := rfl

theorem length_udp (h : UdpHdr) : h.toBytes.length = 8 := rfl

theorem length_tcp (h : TcpHdr) : h.toBytes.length = 20 + h.options.length := by
  simp only [TcpHdr.toBytes, List.length_append, List.length_cons, length_be16, length_be32]

theorem sumWords_be16_append (x : BitVec 16) (d : List Byte) : sumWords (be16 x ++ d) = x.toNat + sumWords d := by
  rw [sumWords_append (by rw [length_be16]), sumWords_be16]

theorem sumWords_be32_append (x : BitVec 32) (d : List Byte) :
    sumWords (be32 x ++ d) = sumWords (be32 x) + sumWords d := sumWords_append (by rw [length_be32]) d

/-- The checksum field counts once in the sum of a header. -/
theorem sumWords_udp (h : UdpHdr) : sumWords h.toBytes = sumWords { h with cksum := 0 }.toBytes + h.cksum.toNat := by
  simp only [UdpHdr.toBytes, List.append_assoc, sumWords_be16_append, sumWords_be16]
  have : (0 : BitVec 16).toNat = 0 := rfl
  omega

theorem sumWords_tcp (h : TcpHdr) : sumWords h.toBytes = sumWords { h with cksum := 0 }.toBytes + h.cksum.toNat := by
  simp only [TcpHdr.toBytes, List.append_assoc, List.cons_append, sumWords_be16_append, sumWords_be32_append, sumWords]
  have : (0 : BitVec 16).toNat = 0 := rfl
  omega

theorem sumWords_ip4 (h : Ip4) : sumWords h.toBytes = sumWords { h with cksum := 0 }.toBytes + h.cksum.toNat := by
  simp only [Ip4.toBytes, List.append_assoc, sumWords_be16_append, sumWords_be32_append, sumWords]
  have : (0 : BitVec 16).toNat = 0 := rfl
  omega

theorem sumWords_icmp (h : Icmp) : sumWords h.toBytes = sumWords { h with cksum := 0 }.toBytes + h.cksum.toNat := by
  simp only [Icmp.toBytes, sumWords_be16_append, sumWords]
  have : (0 : BitVec 16).toNat = 0 := rfl
  omega

/-- Four bytes count in a sum like the number they spell. -/
private theorem cast_sumWords_cons4 (b0 b1 b2 b3 : Byte) (d : List Byte) :
    (sumWords (b0 :: b1 :: b2 :: b3 :: d) : ZMod 65535) = (ofBytes4 b0 b1 b2 b3).toNat + sumWords d := by
  rw [sumWords, sumWords, toNat_ofBytes4]
  push_cast
  linear_combination (-(b0.toNat : ZMod 65535) * 256 - b1.toNat) * wrap

/-- **`ip4_header_checksum` is the negated sum of the header.** -/
theorem residue_ip4HeaderChecksum (e : Endian) (h : Ip4) :
    residue (ip4HeaderChecksum e h) = -(scale e * (sumWords h.toBytes : ZMod 65535)) := by
  have hwords : (sumWords h.toBytes : ZMod 65535) = (getBe32 h.toBytes 0).toNat + ((getBe32 h.toBytes 4).toNat +
      ((getBe32 h.toBytes 8).toNat + ((getBe32 h.toBytes 12).toNat + (getBe32 h.toBytes 16).toNat))) := by
    conv_lhs => rw [show h.toBytes = getU8 h.toBytes 0 :: getU8 h.toBytes 1 :: getU8 h.toBytes 2 ::
      getU8 h.toBytes 3 :: (h.toBytes.drop 4) from rfl, cast_sumWords_cons4,
      show h.toBytes.drop 4 = getU8 h.toBytes 4 :: getU8 h.toBytes 5 :: getU8 h.toBytes 6 ::
      getU8 h.toBytes 7 :: (h.toBytes.drop 8) from rfl, cast_sumWords_cons4,
      show h.toBytes.drop 8 = getU8 h.toBytes 8 :: getU8 h.toBytes 9 :: getU8 h.toBytes 10 ::
      getU8 h.toBytes 11 :: (h.toBytes.drop 12) from rfl, cast_sumWords_cons4,
      show h.toBytes.drop 12 = getU8 h.toBytes 12 :: getU8 h.toBytes 13 :: getU8 h.toBytes 14 ::
      getU8 h.toBytes 15 :: (h.toBytes.drop 16) from rfl, cast_sumWords_cons4,
      show h.toBytes.drop 16 =
        [getU8 h.toBytes 16, getU8 h.toBytes 17, getU8 h.toBytes 18, getU8 h.toBytes 19] from rfl,
      cast_sumWords_cons4]
    simp only [sumWords, Nat.cast_zero, add_zero]
    rfl
  have hlt : ∀ i, (rawWord e (getBe32 h.toBytes i)).toNat < 2 ^ 32 := fun i => (rawWord e (getBe32 h.toBytes i)).isLt
  have hraw : ∀ i, ((rawWord e (getBe32 h.toBytes i)).toNat : ZMod 65535) = scale e * (getBe32 h.toBytes i).toNat :=
    fun i => cast_rawWord e _
  have h0 := hlt 0
  have h4 := hlt 4
  have h8 := hlt 8
  have h12 := hlt 12
  have h16 := hlt 16
  unfold ip4HeaderChecksum
  dsimp only
  rw [residue_not, residue_ofNat (by omega), cast_carry, cast_carry, mod_add_div_32, hwords]
  push_cast
  rw [hraw, hraw, hraw, hraw, hraw]
  ring

end Tayga
