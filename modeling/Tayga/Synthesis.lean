import Tayga.Codec
import Tayga.Config
import Tayga.Pref64

/-!
# The encoders of the address format

The daemon moves words by shifts (`append_to_prefix`, `extract_from_prefix`), the discovery helper lays out bytes
(`synthesize_pref64`, `extract_pref64`).  Both compute `embed`: the daemon's two halves are inverse to each other on
machines of either byte order (`codec_inverse`), the helper's addresses are the daemon's (`synthesize_of_append`),
and from a synthesized well-known address the helper reads the prefix back (`extractPref64_embed`).
-/

namespace Tayga

open BitPrefix

variable {g : Gcfg}

/-! ### The daemon -/

/-- The two halves of the codec are inverse to each other on the addresses of a network, where the rule of the
well-known prefix does not forbid the IPv4 address, and neither depends on the byte order of the machine. -/
theorem codec_inverse {p : In6} {len : Nat} (hl : len ∈ prefixLens) (hp : Normal p len) :
    (∀ a x, appendToPrefix g a p len = .ok x → extractFromPrefix g x len = .ok a) ∧
    (∀ x a, InNet x p len → extractFromPrefix g x len = .ok a →
      (isWkpf p && g.wkpfStrict && isPrivateIp4Addr a) = false → appendToPrefix g a p len = .ok x) ∧
    (∀ a, appendToPrefix { g with endian := .big } a p len = appendToPrefix { g with endian := .little } a p len) ∧
    ∀ x, extractFromPrefix { g with endian := .big } x len =
      extractFromPrefix { g with endian := .little } x len := by
  refine ⟨?_, ?_, ?_, ?_⟩
  · intro a x h
    exact extractFromPrefix_of_append hl hp h
  · intro x a hx h hs
    exact appendToPrefix_of_extract hl hx h hs
  · intro a
    rw [appendToPrefix_endian hl hp, ← appendToPrefix_endian hl hp .little]
  · intro x
    rw [extractFromPrefix_endian hl, ← extractFromPrefix_endian hl .little]

/-- `192.0.2.33` behind `2001:db8:100::/40`, where the reserved octet splits it. -/
theorem codec_inverse_sample :
    extractFromPrefix (configInit .little 0) 0x20010db801c000020021000000000000 40 = .ok 0xc0000221 ∧
    appendToPrefix (configInit .little 0) 0xc0000221 0x20010db8010000000000000000000000 40 =
      .ok 0x20010db801c000020021000000000000 := by
  have hl : 40 ∈ prefixLens := by decide
  have hp : Normal (0x20010db8010000000000000000000000 : In6) 40 := by decide
  obtain ⟨hdecode, hencode, -⟩ := codec_inverse (g := configInit .little 0) hl hp
  have hx : extractFromPrefix (configInit .little 0) 0x20010db801c000020021000000000000 40 = .ok 0xc0000221 :=
    hdecode _ _ (by decide)
  exact ⟨hx, hencode _ _ (by decide) hx (by decide)⟩

/-! ### The helper -/

theorem exists_bytes6 (x : In6) : ∃ b0 b1 b2 b3 b4 b5 b6 b7 b8 b9 b10 b11 b12 b13 b14 b15, x = ofWords6
    (ofBytes4 b0 b1 b2 b3) (ofBytes4 b4 b5 b6 b7) (ofBytes4 b8 b9 b10 b11) (ofBytes4 b12 b13 b14 b15) := by
  obtain ⟨w0, w1, w2, w3, rfl⟩ := exists_words6 x
  obtain ⟨b0, b1, b2, b3, rfl⟩ := exists_bytes4 w0
  obtain ⟨b4, b5, b6, b7, rfl⟩ := exists_bytes4 w1
  obtain ⟨b8, b9, b10, b11, rfl⟩ := exists_bytes4 w2
  obtain ⟨b12, b13, b14, b15, rfl⟩ := exists_bytes4 w3
  exact ⟨b0, b1, b2, b3, b4, b5, b6, b7, b8, b9, b10, b11, b12, b13, b14, b15, rfl⟩

section Bytes

variable (b0 b1 b2 b3 b4 b5 b6 b7 b8 b9 b10 b11 b12 b13 b14 b15 : Byte)

theorem beIn6_ofBytes : beIn6 (ofWords6 (ofBytes4 b0 b1 b2 b3) (ofBytes4 b4 b5 b6 b7)
    (ofBytes4 b8 b9 b10 b11) (ofBytes4 b12 b13 b14 b15)) =
      [b0, b1, b2, b3, b4, b5, b6, b7, b8, b9, b10, b11, b12, b13, b14, b15] := by
  simp [beIn6, be32]

theorem getIn6_bytes : getIn6 [b0, b1, b2, b3, b4, b5, b6, b7, b8, b9, b10, b11, b12, b13, b14, b15] 0 =
    ofWords6 (ofBytes4 b0 b1 b2 b3) (ofBytes4 b4 b5 b6 b7) (ofBytes4 b8 b9 b10 b11) (ofBytes4 b12 b13 b14 b15) :=
  rfl

end Bytes

/-- `synthesize_pref64` embeds. -/
theorem synthesizePref64_eq {len : Nat} (hl : len ∈ prefixLens) (p : In6) (a : In4) :
    synthesizePref64 p len a = some (embed p len a) := by
  obtain ⟨b0, b1, b2, b3, b4, b5, b6, b7, b8, b9, b10, b11, b12, b13, b14, b15, rfl⟩ := exists_bytes6 p
  obtain ⟨a0, a1, a2, a3, rfl⟩ := exists_bytes4 a
  simp only [synthesizePref64, beIn6_ofBytes]
  rcases prefixLens_cases hl with rfl | rfl | rfl | rfl | rfl | rfl <;>
    simp [embed, getIn6_bytes, List.replicate]

/-- A prefix that is not empty is found. -/
private theorem found_eq {res : List Byte} {len : Nat} {q : In6} (h : getIn6 res 0 = q) (hq : q ≠ 0) :
    (if res = List.replicate 16 0 then none else some (len, getIn6 res 0)) = some (len, q) := by
  have hres : res ≠ List.replicate 16 0 := by
    rintro rfl
    exact hq (h.symm.trans (by decide))
  rw [if_neg hres, h]

/-- From a synthesized well-known address the helper reads the prefix back, masked to its length: a longer prefix
would read the well-known address where the shorter one has left zeros behind it. -/
theorem extractPref64_embed {len : Nat} (hl : len ∈ prefixLens) (p : In6) {a : In4} (ha : a = wka1 ∨ a = wka2)
    (hx : excludedBytes (beIn6 (embed p len a)) = false) (hp : p &&& mask 128 len ≠ 0) :
    extractPref64 (embed p len a) = some (len, p &&& mask 128 len) := by
  have h0 : (0 : In4) = ofBytes4 0 0 0 0 := by decide
  have hv : ∃ a3, a = ofBytes4 192 0 0 a3 ∧ (a3 = 170 ∨ a3 = 171) := by
    rcases ha with rfl | rfl
    · exact ⟨170, by decide, .inl rfl⟩
    · exact ⟨171, by decide, .inr rfl⟩
  obtain ⟨a3, rfl, ha3⟩ := hv
  obtain ⟨b0, b1, b2, b3, b4, b5, b6, b7, b8, b9, b10, b11, b12, b13, b14, b15, rfl⟩ := exists_bytes6 p
  rw [and_mask_eq hl] at hp ⊢
  rw [h0] at hp ⊢
  simp only [extractPref64, hx, Bool.false_eq_true, if_false]
  rcases prefixLens_cases hl with rfl | rfl | rfl | rfl | rfl | rfl <;>
    simp only [embed, word6_ofWords6_zero, word6_ofWords6_one, word6_ofWords6_two, byte4_ofBytes4_zero,
      byte4_ofBytes4_one, byte4_ofBytes4_two, byte4_ofBytes4_three] at hp ⊢ <;>
    simp only [h0, beIn6_ofBytes, getU8, List.getD_cons_succ, List.getD_cons_zero, List.take_succ_cons,
      List.take_zero, List.cons_append, List.nil_append, List.replicate, Nat.reduceSub, getIn6_bytes] at hp ⊢ <;>
    rcases ha3 with rfl | rfl
  all_goals
    -- the comparisons for the longer lengths fail, that for the prefix's own succeeds
    repeat rw [if_neg (by decide)]
    rw [if_pos (by decide)]
    exact found_eq rfl hp

/-- The addresses the helper hands out are those the daemon translates. -/
theorem synthesize_of_append {p : In6} {len : Nat} (hl : len ∈ prefixLens) (hp : Normal p len) {a : In4} {x : In6}
    (h : appendToPrefix g a p len = .ok x) : synthesizePref64 p len a = some x := by
  obtain ⟨-, -, rfl⟩ := (appendToPrefix_eq_ok hl hp).1 h
  exact synthesizePref64_eq hl p a

theorem synthesize_of_append_sample :
    synthesizePref64 (ofWords6 wkpf 0 0 0) 96 0x08080808 = some (ofWords6 wkpf 0 0 0x08080808) :=
  synthesize_of_append (g := configInit .little 0) (by decide) (by decide) (by decide)

end Tayga
