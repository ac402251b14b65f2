import Tayga.ChecksumProofs
import Tayga.Packet

/-!
# The checksum functions and the plain sum

`ip_checksum` adds words of 64 bits with one accumulator that starts at `0xffff`.  Against the plain sum, one word
of 16 bits after the other, it may only choose the other zero, and it never gives the one with all bits set
(`ipChecksum_plainChecksum`).  So checksums of two parts add up exactly (`onesAdd_ipChecksum`), and a filled header
checks (`ipChecksum_withCksum`).
-/

namespace Tayga

open OnesComplement

/-- The complement of the one's complement sum of the 16-bit words. -/
def plainChecksum (d : List Byte) : BitVec 16 := ~~~onesSum d

/-- Words with one residue are equal modulo `0xffff`. -/
private theorem modEq_of_residue {x y : BitVec 16} (h : residue x = residue y) : x.toNat ≡ y.toNat [MOD 0xffff] :=
  (ZMod.natCast_eq_natCast_iff _ _ _).1 h

private theorem ipChecksum_plainChecksum (e : Endian) (d : List Byte) :
    (ipChecksum e d).toNat ≡ (htons e (plainChecksum d)).toNat [MOD 0xffff] := by
  apply modEq_of_residue
  rw [residue_ipChecksum, residue_htons, plainChecksum, residue_not, onesSum_eq, residue_ofSum, mul_neg]

private theorem onesAdd_ipChecksum (e : Endian) {a : List Byte} (ha : a.length % 2 = 0) (b : List Byte) :
    onesAdd (ipChecksum e a) (ipChecksum e b) = ipChecksum e (a ++ b) := by
  refine residue_inj_top (fun h => ipChecksum_ne_top e a (onesAdd_eq_top.1 h).1) (ipChecksum_ne_top e _) ?_
  rw [residue_onesAdd, residue_ipChecksum, residue_ipChecksum, residue_ipChecksum, sumWords_append ha, Nat.cast_add]
  ring

/-- The sum of a header with its checksum is zero. -/
theorem cast_sumWords_withCksum (e : Endian) (h : Ip4) : (sumWords (h.withCksum e).toBytes : ZMod 65535) = 0 := by
  have hzero : ({ h.withCksum e with cksum := 0 } : Ip4) = { h with cksum := 0 } := rfl
  have hck : residue (h.withCksum e).cksum = -(sumWords ({ h with cksum := 0 } : Ip4).toBytes : ZMod 65535) := by
    rw [Ip4.withCksum, residue_htons, residue_ip4HeaderChecksum, mul_neg, ← mul_assoc, scale_mul_scale, one_mul]
  rw [sumWords_ip4, hzero, Nat.cast_add, show ((h.withCksum e).cksum.toNat : ZMod 65535) = residue (h.withCksum e).cksum
    from rfl, hck, add_neg_cancel]

private theorem ipChecksum_withCksum (e : Endian) (h : Ip4) : ipChecksum e (h.withCksum e).toBytes = 0 := by
  refine residue_inj_top (ipChecksum_ne_top e _) (by decide) ?_
  rw [residue_ipChecksum, cast_sumWords_withCksum, mul_zero, neg_zero, residue_zero]

/-- What the three checksum functions compute, in both byte orders. -/
theorem ip_checksum_exact (e : Endian) :
    (∀ d : List Byte, (ipChecksum e d).toNat ≡ (htons e (plainChecksum d)).toNat [MOD 0xffff] ∧
      ipChecksum e d ≠ 0xffff) ∧
    (∀ a b : List Byte, a.length % 2 = 0 → onesAdd (ipChecksum e a) (ipChecksum e b) = ipChecksum e (a ++ b)) ∧
    ∀ h : Ip4, ipChecksum e (h.withCksum e).toBytes = 0 :=
  ⟨fun d => ⟨ipChecksum_plainChecksum e d, ipChecksum_ne_top e d⟩, fun _ b ha => onesAdd_ipChecksum e ha b,
    ipChecksum_withCksum e⟩

theorem ip_checksum_exact_parts : onesAdd (ipChecksum .little [0x45, 0x00, 0x05, 0xdc]) (ipChecksum .little [0xff]) =
    ipChecksum .little [0x45, 0x00, 0x05, 0xdc, 0xff] :=
  (ip_checksum_exact .little).2.1 _ [0xff] rfl

end Tayga
