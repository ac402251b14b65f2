import Tayga.Placement
import Tayga.ReloadProofs

/-!
# The bit placement of explicit address maps

C leaves a shift by the width of the type or more, and a read behind the end of an array, without a meaning.  Here the
two directions of a static map are written down once more with a shift and an array access that fail in these cases.
For every pair of prefix lengths `parse_map_entry` admits nothing fails (`guardedAddr6_eq`, `guardedAddr4_eq`), the
general path does on equal widths what the fast path does, and the bits it moves are those behind the two prefixes.
-/

namespace Tayga

open BitPrefix

/-! ### The paths with guarded shifts and word accesses -/

/-- `x << n`, for the counts a 64-bit type has. -/
def shl64 (x : BitVec 64) (n : Int) : Option (BitVec 64) := if 0 ≤ n ∧ n < 64 then some (x <<< n.toNat) else none

/-- `x >> n`, for the counts a 64-bit type has. -/
def shr64 (x : BitVec 64) (n : Int) : Option (BitVec 64) := if 0 ≤ n ∧ n < 64 then some (x >>> n.toNat) else none

/-- `ntohl (x->s6_addr32[i])`, for the indices the array has. -/
def readWord6 (x : In6) (i : Int) : Option (BitVec 32) := if 0 ≤ i ∧ i < 4 then some (word6 x i.toNat) else none

/-- `x->s6_addr32[i] |= htonl (v)`, for the indices the array has. -/
def orWord6 (x : In6) (i : Int) (v : BitVec 32) : Option In6 :=
  if 0 ≤ i ∧ i < 4 then some (x ||| v.setWidth 128 <<< (96 - 32 * i.toNat)) else none

/-- The `else if (bits > 0)` branch of `map_ip4_to_ip6`. -/
def generalPath6 (addr6 : In6) (pos bits : Nat) (suffix : BitVec 32) : Option In6 := do
  let word : Int := pos / 32
  let off : Int := pos % 32
  let shifted ← shl64 (suffix.setWidth 64) (64 - off - bits)
  let addr6 ← orWord6 addr6 word ((shifted >>> 32).setWidth 32)
  if 32 < off + bits then orWord6 addr6 (word + 1) (shifted.setWidth 32) else some addr6

/-- The `else if (bits > 0)` branch of `map_ip6_to_ip4`. -/
def generalPath4 (addr6 : In6) (pos bits : Nat) : Option (BitVec 32) := do
  let word : Int := pos / 32
  let off : Int := pos % 32
  let high ← readWord6 addr6 word
  let low ← if 32 < off + bits then readWord6 addr6 (word + 1) else some 0
  let raw : BitVec 64 := high.setWidth 64 <<< 32 ||| low.setWidth 64
  let moved ← shr64 raw (64 - off - bits)
  let ones ← shr64 (BitVec.allOnes 64) (64 - bits)
  return (moved &&& ones).setWidth 32

/-- The equal-width branch of `map_ip4_to_ip6`. -/
def fastPath6 (addr6 : In6) (suffix : BitVec 32) : In6 := addr6 ||| ofWords6 0 0 0 suffix

/-- The equal-width branch of `map_ip6_to_ip4`. -/
def fastPath4 (m4 : Map4) (addr6 : In6) : BitVec 32 := word6 addr6 3 &&& ~~~m4.mask

/-- The `MAP_TYPE_STATIC` case of `map_ip4_to_ip6`, up to the address. -/
def guardedAddr6 (s : MapStatic) (addr4 : In4) : Option In6 :=
  let suffix := suffix4 s.map4 addr4
  let bits := 32 - s.map4.prefixLen
  if s.map6.prefixLen + bits = 128 then some (fastPath6 s.map6.addr suffix)
  else if 0 < bits then generalPath6 s.map6.addr s.map6.prefixLen bits suffix
  else some s.map6.addr

/-- The `MAP_TYPE_STATIC` case of `map_ip6_to_ip4`, up to the address. -/
def guardedAddr4 (s : MapStatic) (addr6 : In6) : Option In4 := do
  let bits := 32 - s.map4.prefixLen
  let suffix ←
    if s.map6.prefixLen + bits = 128 then some (fastPath4 s.map4 addr6)
    else if 0 < bits then generalPath4 addr6 s.map6.prefixLen bits
    else some 0
  return s.map4.addr ||| suffix

/-! ### Nothing fails -/

variable {pos bits : Nat}

private theorem shl64_eq (x : BitVec 64) {n : Int} {k : Nat} (hn : n = k) (hk : k < 64) :
    shl64 x n = some (x <<< k) := by
  subst hn
  rw [shl64, if_pos ⟨by omega, by omega⟩, Int.toNat_natCast]

private theorem shr64_eq (x : BitVec 64) {n : Int} {k : Nat} (hn : n = k) (hk : k < 64) :
    shr64 x n = some (x >>> k) := by
  subst hn
  rw [shr64, if_pos ⟨by omega, by omega⟩, Int.toNat_natCast]

private theorem readWord6_eq (x : In6) {i : Int} {k : Nat} (hi : i = k) (hk : k < 4) :
    readWord6 x i = some (word6 x k) := by
  subst hi
  rw [readWord6, if_pos ⟨by omega, by omega⟩, Int.toNat_natCast]

private theorem orWord6_eq (x : In6) (v : BitVec 32) {i : Int} {k : Nat} (hi : i = k) (hk : k < 4) :
    orWord6 x i v = some (x ||| v.setWidth 128 <<< (96 - 32 * k)) := by
  subst hi
  rw [orWord6, if_pos ⟨by omega, by omega⟩, Int.toNat_natCast]

/-- A word put at its place in an address, bit by bit. -/
private theorem getLsbD_wordAt (v : BitVec 32) {k i : Nat} (hk : k < 4) (hi : i < 128) :
    (v.setWidth 128 <<< (96 - 32 * k)).getLsbD i = (decide (3 - i / 32 = k) && v.getLsbD (i % 32)) := by
  rw [BitVec.getLsbD_shiftLeft, BitVec.getLsbD_setWidth]
  by_cases hword : 3 - i / 32 = k
  · have hle : ¬ i < 96 - 32 * k := by omega
    have hlt : i - (96 - 32 * k) < 128 := by omega
    simp only [hi, hle, hlt, hword, decide_true, decide_false, Bool.not_false, Bool.true_and]
    rw [show i - (96 - 32 * k) = i % 32 by omega]
  · simp only [hword, decide_false, Bool.false_and]
    by_cases hlow : i < 96 - 32 * k
    · simp [hlow]
    · have hbeyond : 32 ≤ i - (96 - 32 * k) := by omega
      rw [BitVec.getLsbD_of_ge v _ hbeyond, Bool.and_false, Bool.and_false]

private theorem getLsbD_placeBits (x : In6) (suffix : BitVec 32) {i : Nat} (hi : i < 128) :
    (placeBits x pos bits suffix).getLsbD i =
      (x.getLsbD i || (placedWord pos bits suffix (3 - i / 32)).getLsbD (i % 32)) := by
  have hmod : i % 32 < 32 := Nat.mod_lt _ (by omega)
  unfold placeBits
  dsimp only
  rw [getLsbD_ofWords6_fun (fun k => word6 x k ||| placedWord pos bits suffix k) hi, BitVec.getLsbD_or,
    getLsbD_word6 x _ hmod, show 96 - 32 * (3 - i / 32) + i % 32 = i by omega]

/-- Every shift and every index of the general path to IPv6 is in range. -/
private theorem generalPath6_eq (h0 : 0 < bits) (hb : bits ≤ 32) (hfit : pos + bits ≤ 128) (x : In6)
    (suffix : BitVec 32) :
    generalPath6 x pos bits suffix = some (placeBits x pos bits suffix) := by
  have hcount : (64 : Int) - pos % 32 - bits = (64 - pos % 32 - bits : Nat) := by omega
  have hword : (pos : Int) / 32 = (pos / 32 : Nat) := by omega
  have hnext : (pos : Int) / 32 + 1 = (pos / 32 + 1 : Nat) := by omega
  unfold generalPath6
  dsimp only
  rw [shl64_eq _ hcount (by omega), Option.bind_eq_bind, Option.bind_some, orWord6_eq _ _ hword (by omega),
    Option.bind_eq_bind, Option.bind_some]
  by_cases hover : 32 < pos % 32 + bits
  · rw [if_pos (by omega), orWord6_eq _ _ hnext (by omega), Option.some.injEq]
    apply BitVec.eq_of_getLsbD_eq
    intro i hi
    rw [BitVec.getLsbD_or, BitVec.getLsbD_or, getLsbD_wordAt _ (by omega) hi, getLsbD_wordAt _ (by omega) hi,
      getLsbD_placeBits x suffix hi, Bool.or_assoc]
    congr 1
    unfold placedWord
    dsimp only
    by_cases hw : 3 - i / 32 = pos / 32
    · have hne : ¬ 3 - i / 32 = pos / 32 + 1 := by omega
      rw [if_pos hw, decide_eq_true hw, decide_eq_false hne, Bool.true_and, Bool.false_and, Bool.or_false]
    · rw [if_neg hw, decide_eq_false hw, Bool.false_and, Bool.false_or]
      by_cases hw' : 3 - i / 32 = pos / 32 + 1
      · rw [if_pos ⟨hw', hover⟩, decide_eq_true hw', Bool.true_and]
      · rw [if_neg fun h => hw' h.1, decide_eq_false hw', Bool.false_and]
        exact BitVec.getLsbD_zero.symm
  · rw [if_neg (by omega), Option.some.injEq]
    apply BitVec.eq_of_getLsbD_eq
    intro i hi
    rw [BitVec.getLsbD_or, getLsbD_wordAt _ (by omega) hi, getLsbD_placeBits x suffix hi]
    congr 1
    unfold placedWord
    dsimp only
    by_cases hw : 3 - i / 32 = pos / 32
    · rw [if_pos hw, decide_eq_true hw, Bool.true_and]
    · rw [if_neg hw, if_neg fun h => hover h.2, decide_eq_false hw, Bool.false_and]
      exact BitVec.getLsbD_zero.symm

/-- Every shift and every index of the general path to IPv4 is in range. -/
private theorem generalPath4_eq (h0 : 0 < bits) (hb : bits ≤ 32) (hfit : pos + bits ≤ 128) (x : In6) :
    generalPath4 x pos bits = some (readBits x pos bits) := by
  have hcount : (64 : Int) - pos % 32 - bits = (64 - pos % 32 - bits : Nat) := by omega
  have hones : (64 : Int) - bits = (64 - bits : Nat) := by omega
  have hword : (pos : Int) / 32 = (pos / 32 : Nat) := by omega
  have hnext : (pos : Int) / 32 + 1 = (pos / 32 + 1 : Nat) := by omega
  unfold generalPath4 readBits
  dsimp only
  rw [readWord6_eq _ hword (by omega), Option.bind_eq_bind, Option.bind_some]
  by_cases hover : 32 < pos % 32 + bits
  · rw [if_pos (by omega), if_pos hover, readWord6_eq _ hnext (by omega), Option.bind_eq_bind, Option.bind_some,
      shr64_eq _ hcount (by omega), Option.bind_some, shr64_eq _ hones (by omega)]
    rfl
  · rw [if_neg (by omega), if_neg hover, Option.bind_eq_bind, Option.bind_some, shr64_eq _ hcount (by omega),
      Option.bind_some, shr64_eq _ hones (by omega)]
    rfl

/-! ### The fast path is the general path -/

variable {s : MapStatic}

private theorem MapStatic.bits_le (s : MapStatic) : s.bits ≤ 32 := Nat.sub_le _ _

private theorem suffix4_high (h : s.Fits) (a : In4) {j : Nat} (hj : s.bits ≤ j) :
    (suffix4 s.map4 a).getLsbD j = false := by
  by_cases h32 : j < 32
  · rw [getLsbD_suffix4 h a h32, decide_eq_false (by omega), Bool.false_and]
  · exact BitVec.getLsbD_of_ge _ _ (by omega)

/-- On equal widths the general path to IPv6 puts the suffix into the last word. -/
private theorem placeBits_fastPath6 (h : s.Fits) (heq : s.map6.prefixLen + s.bits = 128) (a : In4) :
    placeBits s.map6.addr s.map6.prefixLen s.bits (suffix4 s.map4 a) = fastPath6 s.map6.addr (suffix4 s.map4 a) := by
  have hshift : 128 - s.map6.prefixLen - s.bits = 0 := by omega
  have hlast : ofWords6 0 0 0 (suffix4 s.map4 a) = (suffix4 s.map4 a).setWidth 128 := by
    apply BitVec.eq_of_getLsbD_eq
    intro i hi
    rw [getLsbD_ofWords6, BitVec.getLsbD_setWidth, decide_eq_true hi, Bool.true_and]
    by_cases h32 : i < 32
    · rw [if_pos h32]
    · simp [h32, BitVec.getLsbD_of_ge _ _ (Nat.le_of_not_lt h32)]
  rw [placeBits_eq s.bits_le h.fits fun _ => suffix4_high h a, hshift, BitVec.shiftLeft_zero, fastPath6, hlast]

/-- On equal widths the general path to IPv4 reads the suffix from the last word. -/
private theorem readBits_fastPath4 (h : s.Fits) (h0 : 0 < s.bits) (heq : s.map6.prefixLen + s.bits = 128) (x : In6) :
    readBits x s.map6.prefixLen s.bits = fastPath4 s.map4 x := by
  have hshift : 128 - s.map6.prefixLen - s.bits = 0 := by omega
  apply BitVec.eq_of_getLsbD_eq
  intro j hj
  have hlast := getLsbD_suffix4 h (word6 x 3) hj
  rw [suffix4, getLsbD_word6 x 3 hj] at hlast
  rw [getLsbD_readBits h0 s.bits_le h.fits, hshift, fastPath4, hlast]

/-- The general path to IPv6, wherever it applies. -/
private theorem generalPath6_staticAddr6 (h : s.Fits) (h0 : 0 < s.bits) (a : In4) :
    generalPath6 s.map6.addr s.map6.prefixLen s.bits (suffix4 s.map4 a) = some (staticAddr6 s a) := by
  rw [generalPath6_eq h0 s.bits_le h.fits, Option.some.injEq]
  unfold staticAddr6
  dsimp only
  rw [← h.bits_eq.1]
  by_cases heq : s.map6.prefixLen + s.bits = 128
  · rw [if_pos heq]
    exact placeBits_fastPath6 h heq a
  · rw [if_neg heq, if_pos h0]

/-- The general path to IPv4, wherever it applies. -/
private theorem generalPath4_staticAddr4 (h : s.Fits) (h0 : 0 < s.bits) (x : In6) :
    (generalPath4 x s.map6.prefixLen s.bits).map (s.map4.addr ||| ·) = some (staticAddr4 s x) := by
  rw [generalPath4_eq h0 s.bits_le h.fits, Option.map_some, Option.some.injEq]
  unfold staticAddr4
  dsimp only
  rw [← h.bits_eq.1]
  by_cases heq : s.map6.prefixLen + s.bits = 128
  · rw [if_pos heq, readBits_fastPath4 h h0 heq]
    rfl
  · rw [if_neg heq, if_pos h0]

private theorem guardedAddr6_eq (h : s.Fits) (a : In4) : guardedAddr6 s a = some (staticAddr6 s a) := by
  unfold guardedAddr6
  dsimp only
  by_cases heq : s.map6.prefixLen + (32 - s.map4.prefixLen) = 128
  · rw [if_pos heq, staticAddr6, if_pos heq, fastPath6]
  · rw [if_neg heq]
    by_cases h0 : 0 < 32 - s.map4.prefixLen
    · rw [if_pos h0]
      exact generalPath6_staticAddr6 h h0 a
    · rw [if_neg h0, staticAddr6_of_host h (Nat.eq_zero_of_not_pos h0)]

private theorem guardedAddr4_eq (h : s.Fits) (x : In6) : guardedAddr4 s x = some (staticAddr4 s x) := by
  unfold guardedAddr4
  dsimp only
  by_cases heq : s.map6.prefixLen + (32 - s.map4.prefixLen) = 128
  · rw [if_pos heq, staticAddr4, if_pos heq]
    rfl
  · rw [if_neg heq]
    by_cases h0 : 0 < 32 - s.map4.prefixLen
    · rw [if_pos h0]
      have hgeneral := generalPath4_staticAddr4 h h0 x
      rw [Option.map_eq_bind] at hgeneral
      exact hgeneral
    · rw [if_neg h0, staticAddr4_of_host h (Nat.eq_zero_of_not_pos h0)]
      exact congrArg some (BitVec.or_zero)

/-! ### Which bits move -/

/-- `y` is `x` with the `bits` positions behind the first `pos` taken from `z`, where they start at position `first`. -/
structure Placed {v w : Nat} (x : BitVec w) (pos bits : Nat) (z : BitVec v) (first : Nat) (y : BitVec w) : Prop where
  before : ∀ p < pos, y.getMsbD p = x.getMsbD p
  moved : ∀ k < bits, y.getMsbD (pos + k) = z.getMsbD (first + k)
  behind : ∀ p, pos + bits ≤ p → y.getMsbD p = x.getMsbD p

private theorem placed_staticAddr6 (h : s.Fits) (a : In4) :
    Placed s.map6.addr s.map6.prefixLen s.bits a s.map4.prefixLen (staticAddr6 s a) := by
  have hbits := h.bits_eq
  have hfits := h.fits
  have htail : s.tail = 128 - s.map6.prefixLen - s.bits := rfl
  refine ⟨fun p hp => ?_, fun k hk => ?_, fun p hp => ?_⟩
  · rw [BitVec.getMsbD_eq_getLsbD, BitVec.getMsbD_eq_getLsbD, getLsbD_staticAddr6 h a (by omega)]
    have hout : ¬ 128 - 1 - p - s.tail < s.bits := by omega
    simp [hout]
  · have hprefix : s.map6.addr.getLsbD (128 - 1 - (s.map6.prefixLen + k)) = false :=
      normal_iff.1 h.wf6.normal _ (by omega)
    have hin : 128 - 1 - (s.map6.prefixLen + k) - s.tail = 32 - 1 - (s.map4.prefixLen + k) := by omega
    have hlow : s.tail ≤ 128 - 1 - (s.map6.prefixLen + k) := by omega
    rw [BitVec.getMsbD_eq_getLsbD, BitVec.getMsbD_eq_getLsbD, getLsbD_staticAddr6 h a (by omega), hprefix, hin,
      decide_eq_true hlow, decide_eq_true (show s.map6.prefixLen + k < 128 by omega),
      decide_eq_true (show 32 - 1 - (s.map4.prefixLen + k) < s.bits by omega),
      decide_eq_true (show s.map4.prefixLen + k < 32 by omega)]
    simp
  · by_cases hp' : p < 128
    · rw [BitVec.getMsbD_eq_getLsbD, BitVec.getMsbD_eq_getLsbD, getLsbD_staticAddr6 h a (by omega)]
      have hout : ¬ s.tail ≤ 128 - 1 - p := by omega
      simp [hout]
    · rw [BitVec.getMsbD_of_ge _ _ (by omega), BitVec.getMsbD_of_ge _ _ (by omega)]

private theorem placed_staticAddr4 (h : s.Fits) (x : In6) :
    Placed s.map4.addr s.map4.prefixLen s.bits x s.map6.prefixLen (staticAddr4 s x) := by
  have hbits := h.bits_eq
  have hfits := h.fits
  have htail : s.tail = 128 - s.map6.prefixLen - s.bits := rfl
  refine ⟨fun p hp => ?_, fun k hk => ?_, fun p hp => ?_⟩
  · rw [BitVec.getMsbD_eq_getLsbD, BitVec.getMsbD_eq_getLsbD, getLsbD_staticAddr4 h x (by omega)]
    have hout : ¬ 32 - 1 - p < s.bits := by omega
    simp [hout]
  · have hprefix : s.map4.addr.getLsbD (32 - 1 - (s.map4.prefixLen + k)) = false :=
      normal_iff.1 h.wf4.normal _ (by omega)
    have hin : s.tail + (32 - 1 - (s.map4.prefixLen + k)) = 128 - 1 - (s.map6.prefixLen + k) := by omega
    rw [BitVec.getMsbD_eq_getLsbD, BitVec.getMsbD_eq_getLsbD, getLsbD_staticAddr4 h x (by omega), hprefix, hin,
      decide_eq_true (show s.map6.prefixLen + k < 128 by omega),
      decide_eq_true (show 32 - 1 - (s.map4.prefixLen + k) < s.bits by omega),
      decide_eq_true (show s.map4.prefixLen + k < 32 by omega)]
    simp
  · rw [BitVec.getMsbD_of_ge _ _ (by omega), BitVec.getMsbD_of_ge _ _ (by omega)]

/-! ### The law -/

/-- Both directions of a static map run without an index or a shift out of range; the general path agrees with the fast
path on equal widths and moves the host bits, and only these, between the positions behind the two prefixes. -/
structure MapStatic.PlacesBits (s : MapStatic) : Prop where
  runs6 : ∀ a, guardedAddr6 s a = some (staticAddr6 s a)
  runs4 : ∀ x, guardedAddr4 s x = some (staticAddr4 s x)
  fast6 : s.map6.prefixLen + s.bits = 128 → 0 < s.bits → ∀ a,
    generalPath6 s.map6.addr s.map6.prefixLen s.bits (suffix4 s.map4 a) =
      some (fastPath6 s.map6.addr (suffix4 s.map4 a))
  fast4 : s.map6.prefixLen + s.bits = 128 → 0 < s.bits → ∀ x,
    generalPath4 x s.map6.prefixLen s.bits = some (fastPath4 s.map4 x)
  general6 : 0 < s.bits → ∀ a, ∃ y,
    generalPath6 s.map6.addr s.map6.prefixLen s.bits (suffix4 s.map4 a) = some y ∧
      Placed s.map6.addr s.map6.prefixLen s.bits a s.map4.prefixLen y
  general4 : 0 < s.bits → ∀ x, ∃ suffix, generalPath4 x s.map6.prefixLen s.bits = some suffix ∧
    Placed s.map4.addr s.map4.prefixLen s.bits x s.map6.prefixLen (s.map4.addr ||| suffix)

/-- What `parse_map_entry` admits are two networks whose suffix fits, and on these the bits move as described. -/
theorem static_placement :
    (∀ (g : Gcfg) (libc : Libc) (line : Nat) (v4 v6 : List Char) (s : MapStatic),
      parseMapEntry g libc line v4 v6 = some s → s.Fits) ∧
    ∀ s : MapStatic, s.Fits → s.PlacesBits := by
  refine ⟨fun g libc line v4 v6 s hs => (parseMapEntry_spec hs).ok.fits, fun s h => ?_⟩
  refine ⟨guardedAddr6_eq h, guardedAddr4_eq h, fun heq h0 a => ?_, fun heq h0 x => ?_, fun h0 a => ?_, fun h0 x => ?_⟩
  · rw [generalPath6_eq h0 s.bits_le h.fits, placeBits_fastPath6 h heq]
  · rw [generalPath4_eq h0 s.bits_le h.fits, readBits_fastPath4 h h0 heq]
  · exact ⟨_, generalPath6_staticAddr6 h h0 a, placed_staticAddr6 h a⟩
  · have hsuffix := generalPath4_eq h0 s.bits_le h.fits x
    have haddr := generalPath4_staticAddr4 h h0 x
    rw [hsuffix, Option.map_some, Option.some.injEq] at haddr
    exact ⟨_, hsuffix, haddr ▸ placed_staticAddr4 h x⟩

/-- A map whose suffix lies across a word boundary: `192.0.0.0/20` and `2001:db8::/58`. -/
def straddlingMap : MapStatic :=
  ⟨⟨0xc0000000, ip4Mask 20, 20, .static⟩, ⟨0x20010db8000000000000000000000000, ip6Mask 58, 58, .static⟩, 1, .mapfile⟩

theorem static_placement_straddling : straddlingMap.PlacesBits ∧
    generalPath6 straddlingMap.map6.addr 58 12 (suffix4 straddlingMap.map4 0xc0000abc) =
      some 0x20010db80000002af000000000000000 :=
  ⟨static_placement.2 straddlingMap ⟨⟨by decide, by decide, by decide⟩, ⟨by decide, by decide, by decide⟩, by decide⟩,
    by decide⟩

end Tayga
