import Tayga.Placement

/-!
# The RFC 6052 codec

`append_to_prefix` and `extract_from_prefix` move whole bytes, so they are computed on words written as four bytes
(`ofBytes4`), the same way for both byte orders.  The result: on the addresses of a network `append_to_prefix`
accepts, the two are inverse to each other (`extractFromPrefix_of_append`, `appendToPrefix_of_extract`), and
appended addresses lie in the prefix (`inNet_of_append`).
-/

namespace Tayga

open BitPrefix

/-! ### Words as four bytes -/

theorem toNat_ofBytes4 (b0 b1 b2 b3 : Byte) : (ofBytes4 b0 b1 b2 b3).toNat =
    b0.toNat * 2 ^ 24 + b1.toNat * 2 ^ 16 + b2.toNat * 2 ^ 8 + b3.toNat := by
  have h0 := b0.isLt
  have h1 := b1.isLt
  have h2 := b2.isLt
  have h3 := b3.isLt
  rw [ofBytes4, BitVec.toNat_append, BitVec.toNat_append, BitVec.toNat_append, ← Nat.shiftLeft_add_eq_or_of_lt h3,
    ← Nat.shiftLeft_add_eq_or_of_lt h2, ← Nat.shiftLeft_add_eq_or_of_lt h1]
  simp only [Nat.shiftLeft_eq]
  omega

private theorem toNat_byte4 (a : BitVec 32) (i : Nat) : (byte4 a i).toNat = a.toNat / 2 ^ (24 - 8 * i) % 256 := by
  rw [byte4, BitVec.toNat_setWidth, BitVec.toNat_ushiftRight, Nat.shiftRight_eq_div_pow]

@[simp] theorem ofBytes4_byte4 (a : BitVec 32) : ofBytes4 (byte4 a 0) (byte4 a 1) (byte4 a 2) (byte4 a 3) = a := by
  apply BitVec.eq_of_toNat_eq
  have := a.isLt
  simp only [toNat_ofBytes4, toNat_byte4]
  omega

@[simp] theorem byte4_ofBytes4_zero (b0 b1 b2 b3 : Byte) : byte4 (ofBytes4 b0 b1 b2 b3) 0 = b0 := by
  apply BitVec.eq_of_toNat_eq
  simp only [toNat_byte4, toNat_ofBytes4]
  omega

@[simp] theorem byte4_ofBytes4_one (b0 b1 b2 b3 : Byte) : byte4 (ofBytes4 b0 b1 b2 b3) 1 = b1 := by
  apply BitVec.eq_of_toNat_eq
  simp only [toNat_byte4, toNat_ofBytes4]
  omega

@[simp] theorem byte4_ofBytes4_two (b0 b1 b2 b3 : Byte) : byte4 (ofBytes4 b0 b1 b2 b3) 2 = b2 := by
  apply BitVec.eq_of_toNat_eq
  simp only [toNat_byte4, toNat_ofBytes4]
  omega

@[simp] theorem byte4_ofBytes4_three (b0 b1 b2 b3 : Byte) : byte4 (ofBytes4 b0 b1 b2 b3) 3 = b3 := by
  apply BitVec.eq_of_toNat_eq
  simp only [toNat_byte4, toNat_ofBytes4]
  omega

theorem exists_bytes4 (a : BitVec 32) : ∃ b0 b1 b2 b3, a = ofBytes4 b0 b1 b2 b3 :=
  ⟨_, _, _, _, (ofBytes4_byte4 a).symm⟩

theorem ofBytes4_inj {a0 a1 a2 a3 b0 b1 b2 b3 : Byte} :
    ofBytes4 a0 a1 a2 a3 = ofBytes4 b0 b1 b2 b3 ↔ a0 = b0 ∧ a1 = b1 ∧ a2 = b2 ∧ a3 = b3 := by
  constructor
  · intro h
    refine ⟨?_, ?_, ?_, ?_⟩
    · simpa using congrArg (byte4 · 0) h
    · simpa using congrArg (byte4 · 1) h
    · simpa using congrArg (byte4 · 2) h
    · simpa using congrArg (byte4 · 3) h
  · rintro ⟨rfl, rfl, rfl, rfl⟩
    rfl

section ByteShifts

variable (b0 b1 b2 b3 : Byte)

private theorem shl8_ofBytes4 : ofBytes4 b0 b1 b2 b3 <<< 8 = ofBytes4 b1 b2 b3 0#8 := by
  apply BitVec.eq_of_toNat_eq
  simp only [BitVec.toNat_shiftLeft, toNat_ofBytes4, Nat.shiftLeft_eq, BitVec.toNat_ofNat]
  omega

private theorem shl16_ofBytes4 : ofBytes4 b0 b1 b2 b3 <<< 16 = ofBytes4 b2 b3 0#8 0#8 := by
  apply BitVec.eq_of_toNat_eq
  simp only [BitVec.toNat_shiftLeft, toNat_ofBytes4, Nat.shiftLeft_eq, BitVec.toNat_ofNat]
  omega

private theorem shl24_ofBytes4 : ofBytes4 b0 b1 b2 b3 <<< 24 = ofBytes4 b3 0#8 0#8 0#8 := by
  apply BitVec.eq_of_toNat_eq
  simp only [BitVec.toNat_shiftLeft, toNat_ofBytes4, Nat.shiftLeft_eq, BitVec.toNat_ofNat]
  omega

private theorem shr8_ofBytes4 : ofBytes4 b0 b1 b2 b3 >>> 8 = ofBytes4 0#8 b0 b1 b2 := by
  apply BitVec.eq_of_toNat_eq
  simp only [BitVec.toNat_ushiftRight, toNat_ofBytes4, Nat.shiftRight_eq_div_pow, BitVec.toNat_ofNat]
  omega

private theorem shr16_ofBytes4 : ofBytes4 b0 b1 b2 b3 >>> 16 = ofBytes4 0#8 0#8 b0 b1 := by
  apply BitVec.eq_of_toNat_eq
  simp only [BitVec.toNat_ushiftRight, toNat_ofBytes4, Nat.shiftRight_eq_div_pow, BitVec.toNat_ofNat]
  omega

private theorem shr24_ofBytes4 : ofBytes4 b0 b1 b2 b3 >>> 24 = ofBytes4 0#8 0#8 0#8 b0 := by
  apply BitVec.eq_of_toNat_eq
  simp only [BitVec.toNat_ushiftRight, toNat_ofBytes4, Nat.shiftRight_eq_div_pow, BitVec.toNat_ofNat]
  omega

private theorem setWidth_byte (b : Byte) : b.setWidth 32 = ofBytes4 0#8 0#8 0#8 b := by
  apply BitVec.eq_of_toNat_eq
  have := b.isLt
  simp only [BitVec.toNat_setWidth, toNat_ofBytes4, BitVec.toNat_ofNat]
  omega

end ByteShifts

private theorem and_ofBytes4 (a0 a1 a2 a3 b0 b1 b2 b3 : Byte) :
    ofBytes4 a0 a1 a2 a3 &&& ofBytes4 b0 b1 b2 b3 = ofBytes4 (a0 &&& b0) (a1 &&& b1) (a2 &&& b2) (a3 &&& b3) := by
  unfold ofBytes4
  refine BitVec.and_append.trans ?_
  rw [BitVec.and_append, BitVec.and_append]

private theorem or_ofBytes4 (a0 a1 a2 a3 b0 b1 b2 b3 : Byte) :
    ofBytes4 a0 a1 a2 a3 ||| ofBytes4 b0 b1 b2 b3 = ofBytes4 (a0 ||| b0) (a1 ||| b1) (a2 ||| b2) (a3 ||| b3) := by
  unfold ofBytes4
  refine BitVec.or_append.trans ?_
  rw [BitVec.or_append, BitVec.or_append]

@[simp] theorem rawWord_rawWord (e : Endian) (w : BitVec 32) : rawWord e (rawWord e w) = w := by
  obtain ⟨b0, b1, b2, b3, rfl⟩ := exists_bytes4 w
  cases e <;> simp [rawWord]

/-! ### Addresses as words -/

section Words

variable (w0 w1 w2 w3 : BitVec 32)

@[simp] theorem word6_ofWords6_zero : word6 (ofWords6 w0 w1 w2 w3) 0 = w0 := by
  apply BitVec.eq_of_getLsbD_eq
  intro i hi
  rw [getLsbD_word6 _ _ hi, getLsbD_ofWords6]
  rw [if_neg (by omega), if_neg (by omega), if_neg (by omega), Nat.add_sub_cancel_left]

@[simp] theorem word6_ofWords6_one : word6 (ofWords6 w0 w1 w2 w3) 1 = w1 := by
  apply BitVec.eq_of_getLsbD_eq
  intro i hi
  rw [getLsbD_word6 _ _ hi, getLsbD_ofWords6]
  rw [if_neg (by omega), if_neg (by omega), if_pos (by omega), Nat.add_sub_cancel_left]

@[simp] theorem word6_ofWords6_two : word6 (ofWords6 w0 w1 w2 w3) 2 = w2 := by
  apply BitVec.eq_of_getLsbD_eq
  intro i hi
  rw [getLsbD_word6 _ _ hi, getLsbD_ofWords6]
  simp [show 32 + i < 64 by omega]

@[simp] theorem word6_ofWords6_three : word6 (ofWords6 w0 w1 w2 w3) 3 = w3 := by
  apply BitVec.eq_of_getLsbD_eq
  intro i hi
  rw [getLsbD_word6 _ _ hi, getLsbD_ofWords6]
  simp [hi]

end Words

theorem ofWords6_inj {v0 v1 v2 v3 w0 w1 w2 w3 : BitVec 32} :
    ofWords6 v0 v1 v2 v3 = ofWords6 w0 w1 w2 w3 ↔ v0 = w0 ∧ v1 = w1 ∧ v2 = w2 ∧ v3 = w3 := by
  constructor
  · intro h
    refine ⟨?_, ?_, ?_, ?_⟩
    · simpa using congrArg (word6 · 0) h
    · simpa using congrArg (word6 · 1) h
    · simpa using congrArg (word6 · 2) h
    · simpa using congrArg (word6 · 3) h
  · rintro ⟨rfl, rfl, rfl, rfl⟩
    rfl

/-- The bytes of an address are the bytes of its words. -/
theorem byte6_eq (x : In6) {i : Nat} (hi : i < 16) : byte6 x i = byte4 (word6 x (i / 4)) (i % 4) := by
  apply BitVec.eq_of_getLsbD_eq
  intro j hj
  simp only [byte6, byte4, word6, BitVec.getLsbD_setWidth, BitVec.getLsbD_ushiftRight, hj, decide_true,
    Bool.true_and, show 24 - 8 * (i % 4) + j < 32 by omega]
  congr 1
  omega

private theorem and_ofWords6 (v0 v1 v2 v3 w0 w1 w2 w3 : BitVec 32) : ofWords6 v0 v1 v2 v3 &&& ofWords6 w0 w1 w2 w3 =
    ofWords6 (v0 &&& w0) (v1 &&& w1) (v2 &&& w2) (v3 &&& w3) := by
  unfold ofWords6
  refine BitVec.and_append.trans ?_
  rw [BitVec.and_append, BitVec.and_append]

theorem exists_words6 (x : In6) : ∃ w0 w1 w2 w3, x = ofWords6 w0 w1 w2 w3 := ⟨_, _, _, _, (ofWords6_word6 x).symm⟩

@[simp] private theorem byte4_zero (i : Nat) : byte4 0#32 i = 0#8 := by
  apply BitVec.eq_of_toNat_eq
  simp [toNat_byte4]

@[simp] private theorem ofBytes4_zero : ofBytes4 0#8 0#8 0#8 0#8 = 0#32 := by decide

private theorem ofBytes4_eq_zero {b0 b1 b2 b3 : Byte} :
    ofBytes4 b0 b1 b2 b3 = 0#32 ↔ b0 = 0#8 ∧ b1 = 0#8 ∧ b2 = 0#8 ∧ b3 = 0#8 := by
  rw [← ofBytes4_zero, ofBytes4_inj]

private theorem zero_eq_ofBytes4 {b0 b1 b2 b3 : Byte} :
    0#32 = ofBytes4 b0 b1 b2 b3 ↔ b0 = 0#8 ∧ b1 = 0#8 ∧ b2 = 0#8 ∧ b3 = 0#8 := by
  rw [eq_comm, ofBytes4_eq_zero]

@[simp] private theorem and_ff (b : Byte) : b &&& 255#8 = b := BitVec.and_allOnes

@[simp] private theorem and_ffffffff (w : BitVec 32) : w &&& 4294967295#32 = w := BitVec.and_allOnes

@[simp] private theorem rawWord_zero (e : Endian) : rawWord e 0#32 = 0#32 := by cases e <;> decide

/-! ### The address format -/

/-- The address with the bytes of `a` behind the first `len` bits of `p`, around the reserved byte 8. -/
def embed (p : In6) (len : Nat) (a : In4) : In6 :=
  let p1 := byte4 (word6 p 1)
  let b := byte4 a
  match len with
  | 32 => ofWords6 (word6 p 0) a 0 0
  | 40 => ofWords6 (word6 p 0) (ofBytes4 (p1 0) (b 0) (b 1) (b 2)) (ofBytes4 0 (b 3) 0 0) 0
  | 48 => ofWords6 (word6 p 0) (ofBytes4 (p1 0) (p1 1) (b 0) (b 1)) (ofBytes4 0 (b 2) (b 3) 0) 0
  | 56 => ofWords6 (word6 p 0) (ofBytes4 (p1 0) (p1 1) (p1 2) (b 0)) (ofBytes4 0 (b 1) (b 2) (b 3)) 0
  | 64 => ofWords6 (word6 p 0) (word6 p 1) (ofBytes4 0 (b 0) (b 1) (b 2)) (ofBytes4 (b 3) 0 0 0)
  | 96 => ofWords6 (word6 p 0) (word6 p 1) (word6 p 2) a
  | _ => p

/-- The prefix lengths of the format. -/
def prefixLens : List Nat := [32, 40, 48, 56, 64, 96]

theorem prefixLens_cases {len : Nat} (h : len ∈ prefixLens) :
    len = 32 ∨ len = 40 ∨ len = 48 ∨ len = 56 ∨ len = 64 ∨ len = 96 := by
  simpa [prefixLens] using h

/-- Masking an address to a length of the format is embedding zero. -/
theorem and_mask_eq {len : Nat} (hl : len ∈ prefixLens) (x : In6) : x &&& mask 128 len = embed x len 0 := by
  obtain ⟨w0, w1, w2, w3, rfl⟩ := exists_words6 x
  obtain ⟨a0, a1, a2, a3, rfl⟩ := exists_bytes4 w1
  rcases prefixLens_cases hl with rfl | rfl | rfl | rfl | rfl | rfl
  · rw [show mask 128 32 = ofWords6 0xffffffff 0 0 0 by decide, and_ofWords6]
    simp [embed]
  · rw [show mask 128 40 = ofWords6 0xffffffff (ofBytes4 255 0 0 0) 0 0 by decide, and_ofWords6, and_ofBytes4]
    simp [embed]
  · rw [show mask 128 48 = ofWords6 0xffffffff (ofBytes4 255 255 0 0) 0 0 by decide, and_ofWords6, and_ofBytes4]
    simp [embed]
  · rw [show mask 128 56 = ofWords6 0xffffffff (ofBytes4 255 255 255 0) 0 0 by decide, and_ofWords6, and_ofBytes4]
    simp [embed]
  · rw [show mask 128 64 = ofWords6 0xffffffff 0xffffffff 0 0 by decide, and_ofWords6]
    simp [embed]
  · rw [show mask 128 96 = ofWords6 0xffffffff 0xffffffff 0xffffffff 0 by decide, and_ofWords6]
    simp [embed]

/-- Embedding reads only the prefix bits. -/
theorem embed_embed {len : Nat} (hl : len ∈ prefixLens) (p : In6) (a b : In4) :
    embed (embed p len a) len b = embed p len b := by
  rcases prefixLens_cases hl with rfl | rfl | rfl | rfl | rfl | rfl <;> simp [embed]

/-- Embedded addresses lie in the prefix. -/
private theorem inNet_embed {p : In6} {len : Nat} (hl : len ∈ prefixLens) (hp : Normal p len) (a : In4) :
    InNet (embed p len a) p len := by
  unfold InNet
  rw [and_mask_eq hl, embed_embed hl, ← and_mask_eq hl]
  exact hp.symm

/-- In a network the prefix bits of a member are those of the base. -/
private theorem embed_of_inNet {p x : In6} {len : Nat} (hl : len ∈ prefixLens) (hx : InNet x p len) (a : In4) :
    embed p len a = embed x len a := by
  rw [hx, and_mask_eq hl, embed_embed hl]

/-! ### Both directions -/

variable {g : Gcfg}

/-- The bytes behind the prefix in the base of a network, for the words the source reads. -/
private theorem appended {p : In6} {len : Nat} (hl : len ∈ prefixLens) (hp : Normal p len) {a : In4}
    (hv : validateIp4Addr a = none) (hs : (isWkpf p && g.wkpfStrict && isPrivateIp4Addr a) = false) :
    appendToPrefix g a p len = .ok (embed p len a) := by
  have hp' : p = embed p len 0 := by rw [← and_mask_eq hl]; exact hp.symm
  obtain ⟨w0, w1, w2, w3, rfl⟩ := exists_words6 p
  obtain ⟨p0, p1, p2, p3, rfl⟩ := exists_bytes4 w1
  obtain ⟨a0, a1, a2, a3, rfl⟩ := exists_bytes4 a
  unfold appendToPrefix
  simp only [hv, hs, Option.isSome_none, Bool.false_eq_true, if_false]
  rcases prefixLens_cases hl with rfl | rfl | rfl | rfl | rfl | rfl
  · simp [embed]
  · simp [embed, ofWords6_inj, ofBytes4_inj] at hp'
    obtain ⟨⟨rfl, rfl, rfl⟩, rfl, rfl⟩ := hp'
    cases g.endian <;> simp [embed, rawWord, bigLittle, shl8_ofBytes4, shl16_ofBytes4, shr8_ofBytes4,
      shr16_ofBytes4, or_ofBytes4, and_ofBytes4, show 16711680#32 = ofBytes4 0 255 0 0 by decide,
      show 65280#32 = ofBytes4 0 0 255 0 by decide]
  · simp [embed, ofWords6_inj, ofBytes4_inj] at hp'
    obtain ⟨⟨rfl, rfl⟩, rfl, rfl⟩ := hp'
    cases g.endian <;> simp [embed, rawWord, bigLittle, shl8_ofBytes4, shl16_ofBytes4, shr8_ofBytes4,
      shr16_ofBytes4, or_ofBytes4, and_ofBytes4, show 16776960#32 = ofBytes4 0 255 255 0 by decide]
  · simp [embed, ofWords6_inj, ofBytes4_inj] at hp'
    obtain ⟨rfl, rfl, rfl⟩ := hp'
    cases g.endian <;> simp [embed, rawWord, bigLittle, shl24_ofBytes4, shr24_ofBytes4, or_ofBytes4, and_ofBytes4,
      show 16777215#32 = ofBytes4 0 255 255 255 by decide, show 4294967040#32 = ofBytes4 255 255 255 0 by decide]
  · cases g.endian <;> simp [embed, rawWord, bigLittle, shl8_ofBytes4, shl24_ofBytes4, shr8_ofBytes4,
      shr24_ofBytes4]
  · simp [embed]

/-- What `extract_from_prefix` reads is what was embedded. -/
private theorem extractBits_iff {len : Nat} (hl : len ∈ prefixLens) (x : In6) (a : In4) :
    extractBits g x len = some a ↔ embed x len a = x := by
  obtain ⟨w0, w1, w2, w3, rfl⟩ := exists_words6 x
  obtain ⟨p0, p1, p2, p3, rfl⟩ := exists_bytes4 w1
  obtain ⟨q0, q1, q2, q3, rfl⟩ := exists_bytes4 w2
  obtain ⟨r0, r1, r2, r3, rfl⟩ := exists_bytes4 w3
  obtain ⟨a0, a1, a2, a3, rfl⟩ := exists_bytes4 a
  unfold extractBits
  rcases prefixLens_cases hl with rfl | rfl | rfl | rfl | rfl | rfl
  · simp only [embed, ofWords6_inj, ofBytes4_inj]
    simp [ofBytes4_eq_zero, ofBytes4_inj, zero_eq_ofBytes4]
    grind
  · simp only [embed, ofWords6_inj]
    cases g.endian <;>
    simp [rawWord, bigLittle, byte6_eq, setWidth_byte, shl8_ofBytes4, shl16_ofBytes4, shr8_ofBytes4, or_ofBytes4,
      and_ofBytes4, ofBytes4_inj, ofBytes4_eq_zero, zero_eq_ofBytes4,
      show 4278255615#32 = ofBytes4 255 0 255 255 by decide] <;> grind
  · simp only [embed, ofWords6_inj]
    cases g.endian <;>
    simp [rawWord, bigLittle, byte6_eq, setWidth_byte, shl8_ofBytes4, shl16_ofBytes4, shr8_ofBytes4, or_ofBytes4,
      and_ofBytes4, ofBytes4_inj, ofBytes4_eq_zero, zero_eq_ofBytes4,
      show 4278190335#32 = ofBytes4 255 0 0 255 by decide] <;> grind
  · simp only [embed, ofWords6_inj]
    cases g.endian <;>
    simp [rawWord, bigLittle, byte6_eq, setWidth_byte, shl24_ofBytes4, or_ofBytes4, ofBytes4_inj,
      ofBytes4_eq_zero, zero_eq_ofBytes4] <;> grind
  · simp only [embed, ofWords6_inj]
    cases g.endian <;>
    simp [rawWord, bigLittle, byte6_eq, setWidth_byte, shl8_ofBytes4, shl24_ofBytes4, shr8_ofBytes4, or_ofBytes4,
      and_ofBytes4, ofBytes4_inj, ofBytes4_eq_zero, show 16777215#32 = ofBytes4 0 255 255 255 by decide] <;> grind
  · simp only [embed, ofWords6_inj]
    simp
    exact eq_comm

/-- `append_to_prefix` embeds, after its two checks of the IPv4 address. -/
theorem appendToPrefix_eq_ok {p : In6} {len : Nat} (hl : len ∈ prefixLens) (hp : Normal p len) {a : In4} {x : In6} :
    appendToPrefix g a p len = .ok x ↔ validateIp4Addr a = none ∧
      (isWkpf p && g.wkpfStrict && isPrivateIp4Addr a) = false ∧ embed p len a = x := by
  constructor
  · intro h
    have hv : validateIp4Addr a = none := by
      cases hv : validateIp4Addr a with
      | none => rfl
      | some e => simp [appendToPrefix, hv] at h
    have hs : (isWkpf p && g.wkpfStrict && isPrivateIp4Addr a) = false := by
      by_contra hs
      unfold appendToPrefix at h
      simp only [hv, Option.isSome_none, Bool.false_eq_true, if_false] at h
      rw [if_pos (by simpa [and_assoc] using hs)] at h
      cases h
    rw [appended hl hp hv hs, Except.ok.injEq] at h
    exact ⟨hv, hs, h⟩
  · rintro ⟨hv, hs, rfl⟩
    exact appended hl hp hv hs

/-- `extract_from_prefix` inverts the embedding, with one check of the IPv4 address. -/
private theorem extractFromPrefix_eq_ok {len : Nat} (hl : len ∈ prefixLens) {x : In6} {a : In4} :
    extractFromPrefix g x len = .ok a ↔ validateIp4Addr a = none ∧ embed x len a = x := by
  rw [← extractBits_iff (g := g) hl]
  unfold extractFromPrefix
  cases hb : extractBits g x len with
  | none => simp
  | some b =>
    cases hv : validateIp4Addr b with
    | none =>
      simp only [hv, Except.ok.injEq, Option.some.injEq]
      exact ⟨fun h => ⟨h ▸ hv, h⟩, fun h => h.2⟩
    | some e =>
      simp only [hv, reduceCtorEq, Option.some.injEq, false_iff, not_and]
      rintro hn rfl
      rw [hv] at hn
      cases hn

/-- From a prefix and back gives the IPv4 address back. -/
theorem extractFromPrefix_of_append {p : In6} {len : Nat} (hl : len ∈ prefixLens) (hp : Normal p len) {a : In4}
    {x : In6} (h : appendToPrefix g a p len = .ok x) : extractFromPrefix g x len = .ok a := by
  obtain ⟨hv, -, rfl⟩ := (appendToPrefix_eq_ok hl hp).1 h
  exact (extractFromPrefix_eq_ok hl).2 ⟨hv, embed_embed hl p a a⟩

/-- Appended addresses lie in the prefix. -/
theorem inNet_of_append {p : In6} {len : Nat} (hl : len ∈ prefixLens) (hp : Normal p len) {a : In4} {x : In6}
    (h : appendToPrefix g a p len = .ok x) : InNet x p len := by
  obtain ⟨-, -, rfl⟩ := (appendToPrefix_eq_ok hl hp).1 h
  exact inNet_embed hl hp a

/-- From an address of the prefix and back gives the IPv6 address back. -/
theorem appendToPrefix_of_extract {p : In6} {len : Nat} (hl : len ∈ prefixLens) {x : In6} (hx : InNet x p len)
    {a : In4} (h : extractFromPrefix g x len = .ok a)
    (hs : (isWkpf p && g.wkpfStrict && isPrivateIp4Addr a) = false) : appendToPrefix g a p len = .ok x := by
  obtain ⟨hv, he⟩ := (extractFromPrefix_eq_ok hl).1 h
  exact (appendToPrefix_eq_ok hl hx.normal).2 ⟨hv, hs, (embed_of_inNet hl hx a).trans he⟩

/-- The rejection of `append_to_prefix` is the rule of the well-known prefix. -/
private theorem appendToPrefix_eq_reject {g : Gcfg} {p : In6} {len : Nat} {a : In4} (hv : validateIp4Addr a = none)
    (hs : (isWkpf p && g.wkpfStrict && isPrivateIp4Addr a) = true) :
    appendToPrefix g a p len = .error .reject := by
  simp only [appendToPrefix, hv, Option.isSome_none, Bool.false_eq_true, if_false]
  rw [if_pos (by simpa [and_assoc] using hs)]

/-- `append_to_prefix` computes the same bytes on machines of both byte orders. -/
theorem appendToPrefix_endian {p : In6} {len : Nat} (hl : len ∈ prefixLens) (hp : Normal p len) (e : Endian)
    (a : In4) : appendToPrefix { g with endian := e } a p len = appendToPrefix g a p len := by
  cases hv : validateIp4Addr a with
  | some err => simp [appendToPrefix, hv]
  | none =>
    cases hs : isWkpf p && g.wkpfStrict && isPrivateIp4Addr a with
    | true =>
      have he : appendToPrefix { g with endian := e } a p len = .error .reject := appendToPrefix_eq_reject hv hs
      rw [he, appendToPrefix_eq_reject hv hs]
    | false =>
      rw [(appendToPrefix_eq_ok (g := g) hl hp).2 ⟨hv, hs, rfl⟩]
      exact (appendToPrefix_eq_ok hl hp).2 ⟨hv, hs, rfl⟩

/-- `extract_from_prefix` reads the same address on machines of both byte orders. -/
theorem extractFromPrefix_endian {len : Nat} (hl : len ∈ prefixLens) (e : Endian) (x : In6) :
    extractFromPrefix { g with endian := e } x len = extractFromPrefix g x len := by
  have hbits : extractBits { g with endian := e } x len = extractBits g x len := by
    apply Option.ext
    intro a
    rw [extractBits_iff hl, extractBits_iff hl]
  simp only [extractFromPrefix, hbits]

end Tayga
