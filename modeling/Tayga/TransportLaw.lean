import Tayga.IcmpLaw

/-!
# Transport checksums across the translation

A checksum that is adjusted for the new addresses verifies after the translation if it did before: the residues of the
two pseudo-headers differ by what is added (`adjustCsum_ok`), and the ICMP checksum gets the change of the type and the
pseudo-header on top (`icmp4to6_ok`, `icmp6to4_residue`).  Residues leave open which zero it is.  That decides in one
message: an ICMPv6 echo reply of zeros gets the checksum 0 in IPv4, where only 0xffff verifies (`checksum_preserved`).
-/

namespace Tayga

open OnesComplement

variable {g : Gcfg}

/-! ### What a checksum covers -/

/-- The pseudo-header of IPv4. -/
def pseudoBytes4 (src dest : In4) (proto : Byte) (len : Nat) : List Byte :=
  be32 src ++ (be32 dest ++ ([0, proto] ++ be16 (BitVec.ofNat 16 len)))

/-- The pseudo-header of IPv6. -/
def pseudoBytes6 (src dest : In6) (proto : Byte) (len : Nat) : List Byte :=
  beIn6 src ++ (beIn6 dest ++ (be32 (BitVec.ofNat 32 len) ++ [0, 0, 0, proto]))

/-- The number of bytes the checksum of a transport covers: what the UDP length says, the checksum coverage of UDP-Lite
(0 is all) and of DCCP (the header and, but for 0, so many words less one), and all bytes otherwise. -/
def covered (proto : Byte) (d : List Byte) : Nat :=
  if proto = 17 then (getBe16 d 4).toNat
  else if proto = 136 then if getBe16 d 4 = 0 then d.length else (getBe16 d 4).toNat
  else if proto = 33 then
    let coverage := (getU8 d 5 &&& 0x0f).toNat
    if coverage = 0 then d.length else (getU8 d 4).toNat * 4 + (coverage - 1) * 4
  else d.length

/-- The length in the pseudo-header: the UDP length, and all bytes otherwise. -/
def pseudoLen (proto : Byte) (d : List Byte) : Nat := if proto = 17 then (getBe16 d 4).toNat else d.length

/-- The least header of a transport. -/
def transportMin (proto : Byte) : Nat := if proto = 6 then 20 else if proto = 33 then 12 else 8

theorem eight_le_transportMin (proto : Byte) : 8 ≤ transportMin proto := by
  unfold transportMin
  split
  · decide
  · split <;> decide

/-- The checksum lies in the least header. -/
theorem cksum_room {proto : Byte} {n : Nat} (h : transportMin proto ≤ n) : (if proto = 6 then 16 else 6) + 2 ≤ n := by
  unfold transportMin at h
  split at h
  · next h6 => rw [if_pos h6]; omega
  · next h6 => rw [if_neg h6]; split at h <;> omega

/-- A receiver accepts the checksum of a transport: it is there, and it verifies over the bytes it covers. -/
structure ChecksumOk (pseudo : Nat → List Byte) (proto : Byte) (d : List Byte) : Prop where
  hmin : transportMin proto ≤ covered proto d
  hmax : covered proto d ≤ d.length
  hgiven : proto = 17 ∨ proto = 136 → getBe16 d 6 ≠ 0
  hsum : Verifies (pseudo (pseudoLen proto d) ++ d.take (covered proto d))

/-- The same in an IPv4 packet.  ICMP has no pseudo-header. -/
def ChecksumOk4 (src dest : In4) (proto : Byte) (d : List Byte) : Prop :=
  ChecksumOk (if proto = 1 then fun _ => [] else pseudoBytes4 src dest proto) proto d

/-- The same in an IPv6 packet. -/
def ChecksumOk6 (src dest : In6) (proto : Byte) (d : List Byte) : Prop :=
  ChecksumOk (pseudoBytes6 src dest proto) proto d

/-! ### Sums -/

theorem length_pseudoBytes4 (src dest : In4) (proto : Byte) (len : Nat) :
    (pseudoBytes4 src dest proto len).length % 2 = 0 := by
  simp [pseudoBytes4, length_be32, length_be16]

theorem length_pseudoBytes6 (src dest : In6) (proto : Byte) (len : Nat) :
    (pseudoBytes6 src dest proto len).length % 2 = 0 := by
  simp [pseudoBytes6, length_be32, length_beIn6]

theorem sumWords_pseudoBytes4 {src dest : In4} {proto : Byte} {len : Nat} (h : len < 65536) :
    (sumWords (pseudoBytes4 src dest proto len) : ZMod 65535) = pseudo4 src dest len proto := by
  have hproto : sumWords ([0, proto] ++ be16 (BitVec.ofNat 16 len)) = proto.toNat + len := by
    rw [sumWords_append (by simp), sumWords_be16, BitVec.toNat_ofNat, Nat.mod_eq_of_lt h]
    simp [sumWords]
  rw [pseudoBytes4, sumWords_be32_append, sumWords_be32_append, hproto, Nat.cast_add, Nat.cast_add, Nat.cast_add,
    cast_sumWords_be32, cast_sumWords_be32, pseudo4]
  ring

theorem sumWords_pseudoBytes6 {src dest : In6} {proto : Byte} {len : Nat} (h : len < 65536) :
    (sumWords (pseudoBytes6 src dest proto len) : ZMod 65535) = pseudo6 src dest len proto := by
  have hproto : sumWords [0, 0, 0, proto] = proto.toNat := by simp [sumWords]
  rw [pseudoBytes6, sumWords_append (by rw [length_beIn6]), sumWords_append (by rw [length_beIn6]),
    sumWords_be32_append, hproto, Nat.cast_add, Nat.cast_add, Nat.cast_add, cast_sumWords_beIn6, cast_sumWords_beIn6,
    cast_sumWords_be32, BitVec.toNat_ofNat, Nat.mod_eq_of_lt (by omega), pseudo6]
  ring

/-- With a protocol in it, a sum is not zero. -/
theorem sumWords_pseudoBytes4_ne_zero {src dest : In4} {proto : Byte} {len : Nat} (h : proto ≠ 0) :
    sumWords (pseudoBytes4 src dest proto len) ≠ 0 := fun hzero =>
  h ((sumWords_eq_zero _).1 hzero proto (by simp [pseudoBytes4]))

theorem sumWords_pseudoBytes6_ne_zero {src dest : In6} {proto : Byte} {len : Nat} (h : proto ≠ 0) :
    sumWords (pseudoBytes6 src dest proto len) ≠ 0 := fun hzero =>
  h ((sumWords_eq_zero _).1 hzero proto (by simp [pseudoBytes6]))

/-- A word in the place of another one. -/
private theorem take_put {d : List Byte} {i n : Nat} (v : BitVec 16) (hi : i + 2 ≤ n) (hn : n ≤ d.length) :
    (put d i (be16 v)).take n = d.take i ++ (be16 v ++ (d.drop (i + 2)).take (n - (i + 2))) := by
  have htake : (d.take i).length = i := List.length_take_of_le (by omega)
  have hword : (be16 v).take (n - i) = be16 v := List.take_of_length_le (by rw [length_be16]; omega)
  rw [put, length_be16, List.append_assoc, List.take_append, htake, List.take_append, length_be16, hword, Nat.sub_sub,
    List.take_of_length_le (show (d.take i).length ≤ n by omega)]

theorem sumWords_put {d : List Byte} {i n : Nat} (v : BitVec 16) (heven : i % 2 = 0) (hi : i + 2 ≤ n)
    (hn : n ≤ d.length) :
    sumWords ((put d i (be16 v)).take n) + (getBe16 d i).toNat = sumWords (d.take n) + v.toNat := by
  have hsplit : ∀ v, sumWords ((put d i (be16 v)).take n) =
      sumWords (d.take i) + (v.toNat + sumWords ((d.drop (i + 2)).take (n - (i + 2)))) := by
    intro v
    rw [take_put v hi hn, sumWords_append (by rw [List.length_take_of_le (by omega)]; exact heven),
      sumWords_be16_append]
  have hself : put d i (be16 (getBe16 d i)) = d := by
    rw [put, length_be16, List.append_assoc, be16_getBe16_append (by omega), List.take_append_drop]
  have hold := hsplit (getBe16 d i)
  rw [hself] at hold
  rw [hsplit, hold]
  omega

theorem getBe16_put {d : List Byte} {i : Nat} (v : BitVec 16) (hi : i + 2 ≤ d.length) :
    getBe16 (put d i (be16 v)) i = v := by
  have htake : (d.take i).length = i := List.length_take_of_le (by omega)
  have hdrop : (put d i (be16 v)).drop i = be16 v ++ d.drop (i + 2) := by
    rw [put, length_be16, List.append_assoc, List.drop_left' htake]
  have hget := getBe16_drop (put d i (be16 v)) i 0
  rw [hdrop] at hget
  exact hget.symm.trans (append_be16 v)

/-- What the checksum covers does not depend on it. -/
theorem covered_put (proto : Byte) {d : List Byte} {i : Nat} (v : BitVec 16) (h6 : 6 ≤ i) (hi : i + 2 ≤ d.length) :
    covered proto (put d i (be16 v)) = covered proto d ∧ pseudoLen proto (put d i (be16 v)) = pseudoLen proto d := by
  have hlen : (put d i (be16 v)).length = d.length := length_put (by rw [length_be16]; exact hi)
  have hbyte : ∀ j, j < 6 → getU8 (put d i (be16 v)) j = getU8 d j := fun j hj => getU8_put (by omega) (by omega)
  unfold covered pseudoLen getBe16
  rw [hbyte 4 (by omega), hbyte 5 (by omega), hlen]
  exact ⟨rfl, rfl⟩

/-! ### Adjusting for the new addresses -/

section Adjust

variable {x : PayloadCtx} {pseudo pseudo' : Nat → List Byte} {proto : Byte} {p : Payload} {em : Bool}

theorem residue_nonzeroCksum (ck : BitVec 16) : residue (nonzeroCksum ck) = residue ck := by
  unfold nonzeroCksum
  split
  · next h => rw [h, residue_zero, residue_top]
  · rfl

theorem nonzeroCksum_ne_zero (ck : BitVec 16) : nonzeroCksum ck ≠ 0 := by
  unfold nonzeroCksum
  split
  · decide
  · assumption

/-- What is added to a checksum is the difference of the pseudo-headers. -/
def Shifts (e : Endian) (adjust : BitVec 16) (pseudo pseudo' : Nat → List Byte) : Prop :=
  ∀ len < 65536, (sumWords (pseudo' len) : ZMod 65535) + scale e * residue adjust = sumWords (pseudo len)

/-- Adjusting puts a new checksum in the place of the old one. -/
theorem adjustCsum_put (g : Gcfg) (x : PayloadCtx) (p : Payload) (off : Nat) {fix : BitVec 16 → BitVec 16}
    (hfix : ∀ ck, residue (fix ck) = residue ck) :
    ∃ ck, x.adjustCsum g off fix p = (put p.1 off (be16 (htons g.endian (fix ck))), p.2) ∧
    residue (htons g.endian (fix ck)) = residue (getBe16 p.1 off) + scale g.endian * residue x.adjust := by
  refine ⟨_, rfl, ?_⟩
  rw [residue_htons, hfix, residue_onesAdd, getU16, residue_htons, mul_add, ← mul_assoc, scale_mul_scale, one_mul]

/-- **The adjusted checksum verifies.** -/
theorem adjustCsum_ok {off : Nat} {fix : BitVec 16 → BitVec 16} (hoff : off = if proto = 6 then 16 else 6)
    (hfix : ∀ ck, residue (fix ck) = residue ck) (hgiven : proto = 17 ∨ proto = 136 → ∀ ck, fix ck ≠ 0)
    (hlen : p.1.length < 65536) (heven : ∀ len, (pseudo len).length % 2 = 0 ∧ (pseudo' len).length % 2 = 0)
    (hne : ∀ len, sumWords (pseudo' len) ≠ 0) (hshift : Shifts g.endian x.adjust pseudo pseudo')
    (h : ChecksumOk pseudo proto p.1) : ChecksumOk pseudo' proto (x.adjustCsum g off fix p).1 := by
  obtain ⟨hmin, hmax, -, hsum⟩ := h
  have hfit : off + 2 ≤ covered proto p.1 := by
    rw [hoff]
    exact cksum_room hmin
  have h6 : 6 ≤ off ∧ off % 2 = 0 := by
    rw [hoff]
    split <;> decide
  obtain ⟨raw, hraw, hres⟩ := adjustCsum_put g x p off hfix
  generalize hck : fix raw = ck at hraw hres
  obtain ⟨hcovered, hpseudo⟩ := covered_put proto (htons g.endian ck) h6.1 (hfit.trans hmax)
  have hput : (x.adjustCsum g off fix p).1 = put p.1 off (be16 (htons g.endian ck)) := congrArg Prod.fst hraw
  have hputlen : (put p.1 off (be16 (htons g.endian ck))).length = p.1.length :=
    length_put (by rw [length_be16]; omega)
  have hword := sumWords_put (htons g.endian ck) h6.2 hfit hmax
  have hpl : pseudoLen proto p.1 < 65536 := by
    unfold pseudoLen
    split
    · exact (getBe16 p.1 4).isLt
    · exact hlen
  have hold := (verifies_iff.1 hsum).1
  rw [sumWords_append (heven _).1, Nat.cast_add, ← hshift _ hpl] at hold
  rw [hput]
  refine ⟨hcovered ▸ hmin, by rw [hcovered, hputlen]; exact hmax, fun hudp => ?_, ?_⟩
  · have h16 : off = 6 := by
      rw [hoff, if_neg]
      rintro rfl
      revert hudp
      decide
    rw [← h16, getBe16_put _ (hfit.trans hmax), ne_eq, htons_ne_zero, ← hck]
    exact hgiven hudp _
  · rw [hcovered, hpseudo]
    refine verifies_iff.2 ⟨?_, ?_⟩
    · have hcast := congrArg (Nat.cast (R := ZMod 65535)) hword
      push_cast at hcast
      rw [sumWords_append (heven _).2, Nat.cast_add]
      unfold residue at hres hold
      rw [hres] at hcast
      linear_combination hold + hcast
    · rw [sumWords_append (heven _).2]
      have := hne (pseudoLen proto p.1)
      omega

/-- The protocols whose checksums are adjusted: UDP, TCP, DCCP and UDP-Lite. -/
def adjustedProtos : List Byte := [17, 6, 33, 136]

/-- The correction of a checksum that has become zero. -/
def cksumFix (proto : Byte) : BitVec 16 → BitVec 16 := if proto = 17 ∨ proto = 136 then nonzeroCksum else id

theorem residue_cksumFix (proto : Byte) (ck : BitVec 16) : residue (cksumFix proto ck) = residue ck := by
  unfold cksumFix
  split
  · exact residue_nonzeroCksum ck
  · rfl

private theorem udp_adjust (hfull : needsCsum p.2 = false) (hlen : 8 ≤ p.1.length) (hgiven : getBe16 p.1 6 ≠ 0) :
    x.udp g em p = some (x.adjustCsum g 6 nonzeroCksum p) := by
  have hword : getU16 g.endian p.1 6 ≠ 0 := fun hzero => hgiven (htons_ne_zero.1 hzero)
  unfold PayloadCtx.udp
  rw [if_neg (Nat.not_lt.2 hlen), hfull, if_neg Bool.false_ne_true, if_neg hword]

private theorem tcp_adjust (hfull : needsCsum p.2 = false) (hlen : 20 ≤ p.1.length) :
    x.tcp g em p = some (x.adjustCsum g 16 id p) := by
  unfold PayloadCtx.tcp
  rw [if_neg (Nat.not_lt.2 hlen), hfull, if_neg Bool.false_ne_true]

private theorem dccpUdplite_adjust (hfull : needsCsum p.2 = false) (hlen : (if proto = 33 then 12 else 8) ≤ p.1.length)
    (hgiven : proto = 136 → getBe16 p.1 6 ≠ 0) :
    x.dccpUdplite g proto em p = some (x.adjustCsum g 6 (if proto = 136 then nonzeroCksum else id) p) := by
  have hword : ¬(proto = 136 ∧ getU16 g.endian p.1 6 = 0) := fun h => hgiven h.1 (htons_ne_zero.1 h.2)
  unfold PayloadCtx.dccpUdplite
  rw [if_neg (Nat.not_lt.2 hlen), hfull, if_neg Bool.false_ne_true, if_neg hword]

/-- A packet of one of the four protocols with a checksum in the header is adjusted, a first fragment too. -/
theorem xlatePayload_adjust (hproto : proto ∈ adjustedProtos) (hicmp : x.icmpProto ∉ adjustedProtos)
    (hinitial : x.noninitial = false) (hfull : needsCsum p.2 = false)
    (hlen : transportMin proto ≤ p.1.length) (hgiven : proto = 17 ∨ proto = 136 → getBe16 p.1 6 ≠ 0) :
    xlatePayload g x proto em p = some (x.adjustCsum g (if proto = 6 then 16 else 6) (cksumFix proto) p) := by
  have hne : proto ≠ x.icmpProto := fun h => hicmp (h ▸ hproto)
  unfold xlatePayload
  rw [hfull, hinitial, if_neg (fun h => Bool.false_ne_true h.2), if_neg Bool.false_ne_true, if_neg hne]
  simp only [adjustedProtos, List.mem_cons, List.not_mem_nil, or_false] at hproto
  rcases hproto with rfl | rfl | rfl | rfl
  · exact udp_adjust hfull hlen (hgiven (.inl rfl))
  · exact tcp_adjust hfull hlen
  · exact dccpUdplite_adjust hfull hlen fun h => absurd h (by decide)
  · exact dccpUdplite_adjust hfull hlen fun _ => hgiven (.inr rfl)

/-- UDP with a checksum, and UDP-Lite, come out with a checksum. -/
private theorem xlatePayload_given {q : Payload} (h : xlatePayload g x proto em p = some q)
    (hproto : proto = 17 ∨ proto = 136)
    (hicmp : x.icmpProto ∉ adjustedProtos) (hinitial : x.noninitial = false) (hfull : needsCsum p.2 = false)
    (hgiven : proto = 17 ∨ em = true → getBe16 p.1 6 ≠ 0) : getBe16 q.1 6 ≠ 0 := by
  have hadjust : 8 ≤ p.1.length → getBe16 (x.adjustCsum g 6 nonzeroCksum p).1 6 ≠ 0 := by
    intro hlen hzero
    rw [show (x.adjustCsum g 6 nonzeroCksum p).1 = put p.1 6 (be16 _) from rfl, getBe16_put _ (by omega),
      htons_ne_zero] at hzero
    exact nonzeroCksum_ne_zero _ hzero
  have hmin : (if (136 : Byte) = 33 then (12 : Nat) else 8) = 8 := rfl
  have hne : proto ≠ x.icmpProto := by
    rintro rfl
    rcases hproto with h17 | h136
    · exact hicmp (h17 ▸ by decide)
    · exact hicmp (h136 ▸ by decide)
  unfold xlatePayload at h
  rw [hfull, hinitial, if_neg (fun h => Bool.false_ne_true h.2), if_neg Bool.false_ne_true, if_neg hne] at h
  by_cases hshort : p.1.length < 8
  · -- too short for a header: only a quoted packet is let through, as it is
    have hself : em = true ∧ q = p := by
      rcases hproto with rfl | rfl
      · rw [if_pos rfl, PayloadCtx.udp, if_pos hshort] at h
        cases em
        · cases h
        · exact ⟨rfl, (Option.some.inj h).symm⟩
      · rw [if_neg (by decide), if_neg (by decide), if_pos (.inr rfl), PayloadCtx.dccpUdplite, hmin,
          if_pos hshort] at h
        cases em
        · cases h
        · exact ⟨rfl, (Option.some.inj h).symm⟩
    rw [hself.2]
    exact hgiven (.inr hself.1)
  have hlen : 8 ≤ p.1.length := Nat.not_lt.1 hshort
  rcases hproto with rfl | rfl
  · rw [if_pos rfl, udp_adjust hfull hlen (hgiven (.inl rfl))] at h
    rw [← Option.some.inj h]
    exact hadjust hlen
  · rw [if_neg (by decide), if_neg (by decide), if_pos (.inr rfl)] at h
    by_cases hzero : getBe16 p.1 6 = 0
    · have hem : em = false := by
        cases em
        · rfl
        · exact absurd hzero (hgiven (.inr rfl))
      rw [PayloadCtx.dccpUdplite, hmin, if_neg hshort, hfull, if_neg Bool.false_ne_true,
        if_pos ⟨rfl, htons_ne_zero.2 hzero⟩, hem] at h
      cases h
    · rw [dccpUdplite_adjust hfull (hmin.symm ▸ hlen) fun _ => hzero] at h
      rw [← Option.some.inj h]
      exact hadjust hlen

end Adjust

/-! ### ICMP -/

section Message

variable {d : List Byte}

/-- The header of a message and what is behind it. -/
theorem icmp_append (hlen : 8 ≤ d.length) : (Icmp.ofBytes d).toBytes ++ d.drop 8 = d := by
  have h16 : be16 (getBe16 d 2) ++ (be32 (getBe32 d 4) ++ d.drop 8) = d.drop 2 := by
    rw [be32_getBe32_append (d := d) (i := 4) hlen]
    exact be16_getBe16_append (by omega)
  match d, hlen, h16 with
  | b :: c :: rest, _, h16 => exact congrArg (b :: c :: ·) h16

theorem sumWords_message (icmp : Icmp) (rest : List Byte) : sumWords (icmp.toBytes ++ rest) =
    icmp.type.toNat * 256 + icmp.code.toNat + icmp.cksum.toNat + sumWords (be32 icmp.word ++ rest) := by
  rw [Icmp.toBytes, List.cons_append, List.cons_append, sumWords, List.append_assoc, sumWords_be16_append,
    ← Nat.add_assoc]

/-- The change of the type as the machine loads it. -/
private theorem residue_delta (e : Endian) {delta : BitVec 16} (h : delta.toNat < 256) :
    scale e * residue (bigLittle e (delta <<< 8) delta) = delta.toNat * 256 := by
  cases e with
  | big =>
    have hshift : (delta <<< 8).toNat = delta.toNat * 256 := by
      rw [BitVec.toNat_shiftLeft, Nat.shiftLeft_eq]
      omega
    have hcast : (((delta <<< 8).toNat : Nat) : ZMod 65535) = delta.toNat * 256 := by
      rw [hshift, Nat.cast_mul]
      rfl
    exact (one_mul _).trans hcast
  | little => exact mul_comm _ _

/-- **A message to ICMPv6** gets the pseudo-header and the new type into its checksum. -/
theorem sumWords_icmp4to6 (e : Endian) (ck : BitVec 16) {icmp : Icmp} (rest : List Byte)
    (htype : icmp.type = 8 ∨ icmp.type = 0) :
    (sumWords ((icmp4to6 e ck icmp).toBytes ++ rest) : ZMod 65535) =
      sumWords (icmp.toBytes ++ rest) + scale e * residue ck := by
  obtain ⟨type, delta, hlt, hdelta, heq⟩ : ∃ (type : Byte) (delta : BitVec 16), delta.toNat < 256 ∧
      type.toNat = icmp.type.toNat + delta.toNat ∧ icmp4to6 e ck icmp = { icmp with
        type := type
        cksum := htons e (onesAdd (onesAdd (htons e icmp.cksum) ck) (~~~bigLittle e (delta <<< 8) delta)) } := by
    unfold icmp4to6
    rcases htype with htype | htype
    · exact ⟨128, 128 - 8, by decide, by rw [htype]; decide, by rw [if_pos htype, if_pos htype]⟩
    · have hne : ¬icmp.type = 8 := by rw [htype]; decide
      exact ⟨129, 129 - 0, by decide, by rw [htype]; decide, by rw [if_neg hne, if_neg hne]⟩
  have hck : residue (htons e (onesAdd (onesAdd (htons e icmp.cksum) ck) (~~~bigLittle e (delta <<< 8) delta))) =
      residue icmp.cksum + scale e * residue ck - delta.toNat * 256 := by
    rw [residue_htons, residue_onesAdd, residue_onesAdd, residue_htons, residue_not, mul_add, mul_add, ← mul_assoc,
      scale_mul_scale, one_mul, mul_neg, residue_delta e hlt]
    ring
  unfold residue at hck ⊢
  rw [heq, sumWords_message, sumWords_message]
  dsimp only
  rw [hdelta]
  push_cast
  rw [hck]
  ring

/-- **A message from ICMPv6**, the same; its checksum is not the zero with all bits set. -/
theorem sumWords_icmp6to4 (e : Endian) (ck : BitVec 16) {icmp : Icmp} (rest : List Byte)
    (htype : icmp.type = 128 ∨ icmp.type = 129) :
    (sumWords ((icmp6to4 e ck icmp).toBytes ++ rest) : ZMod 65535) =
      sumWords (icmp.toBytes ++ rest) + scale e * residue ck ∧ (icmp6to4 e ck icmp).cksum ≠ 0xffff := by
  obtain ⟨type, delta, hlt, hdelta, heq⟩ : ∃ (type : Byte) (delta : BitVec 16), delta.toNat < 256 ∧
      type.toNat + delta.toNat = icmp.type.toNat ∧ icmp6to4 e ck icmp = { icmp with
        type := type
        cksum := htons e (onesAdd (onesAdd (htons e icmp.cksum) ck) (bigLittle e (delta <<< 8) delta)) } := by
    unfold icmp6to4
    rcases htype with htype | htype
    · exact ⟨8, 128 - 8, by decide, by rw [htype]; decide, by rw [if_pos htype, if_pos htype]⟩
    · have hne : ¬icmp.type = 128 := by rw [htype]; decide
      exact ⟨0, 129 - 0, by decide, by rw [htype]; decide, by rw [if_neg hne, if_neg hne]⟩
  have hck : residue (htons e (onesAdd (onesAdd (htons e icmp.cksum) ck) (bigLittle e (delta <<< 8) delta))) =
      residue icmp.cksum + scale e * residue ck + delta.toNat * 256 := by
    rw [residue_htons, residue_onesAdd, residue_onesAdd, residue_htons, mul_add, mul_add, ← mul_assoc,
      scale_mul_scale, one_mul, residue_delta e hlt]
  refine ⟨?_, ?_⟩
  · unfold residue at hck ⊢
    rw [heq, sumWords_message, sumWords_message]
    dsimp only
    rw [← hdelta]
    push_cast
    rw [hck]
    ring
  · rw [heq]
    dsimp only
    rw [ne_eq, htons_eq_iff, htons_top, onesAdd_eq_top]
    intro h
    have htop := congrArg BitVec.toNat h.2
    cases e with
    | big =>
      have hshift : (delta <<< 8).toNat = delta.toNat * 256 := by
        rw [BitVec.toNat_shiftLeft, Nat.shiftLeft_eq]
        omega
      have htop : (delta <<< 8).toNat = 65535 := htop
      omega
    | little =>
      have htop : delta.toNat = 65535 := htop
      omega

end Message

/-! ### The law -/

/-- The packet is as long as its header says, is no fragment and has no partial checksum. -/
structure Whole4 (p : Pkt4) : Prop where
  hlen : p.headerLen + p.data.length = p.ip4.length.toNat
  hwhole : p.isFragment = false
  hfull : needsCsum p.vhdr = false

/-- The same from IPv6. -/
structure Whole6 (p : Pkt6) : Prop where
  hlen : p.headerLen + p.data.length = p.ip6.payloadLength.toNat
  hwhole : p.frag.any Ip6Frag.isFragment = false
  hfull : needsCsum p.vhdr = false

/-- A transport with a checksum that is translated: UDP, TCP, DCCP, UDP-Lite or an ICMP echo message. -/
def Checksummed4 (p : Pkt4) : Prop :=
  p.dataProto ∈ adjustedProtos ∨ p.dataProto = 1 ∧ (p.icmp.type = 8 ∨ p.icmp.type = 0)

/-- The same from IPv6. -/
def Checksummed6 (p : Pkt6) : Prop :=
  p.dataProto ∈ adjustedProtos ∨ p.dataProto = 58 ∧ (p.icmp.type = 128 ∨ p.icmp.type = 129)

/-- What `xlate_payload_4to6` makes of the packet has a checksum that is accepted behind the new header. -/
def Preserves4to6 (g : Gcfg) (p : Pkt4) (ip6 : Ip6) (em : Bool) : Prop :=
  ∃ q, xlatePayload4to6 g p ip6 em = some q ∧
    ChecksumOk6 ip6.src ip6.dest (if p.dataProto = 1 then 58 else p.dataProto) q.data

/-- The same for `xlate_payload_6to4`. -/
def Preserves6to4 (g : Gcfg) (p : Pkt6) (ip4 : Ip4) (em : Bool) : Prop :=
  ∃ q, xlatePayload6to4 g p ip4 em = some q ∧
    ChecksumOk4 ip4.src ip4.dest (if p.dataProto = 58 then 1 else p.dataProto) q.data

/-- An echo reply that is all zeros behind its type, but for the checksum. -/
def ZeroReply (p : Pkt6) : Prop :=
  p.dataProto = 58 ∧ p.icmp.type = 129 ∧ p.icmp.code = 0 ∧ ∀ b ∈ p.data.drop 4, b = 0

private theorem shifts_4to6 (g : Gcfg) (p : Pkt4) (ip6 : Ip6) (proto : Byte) :
    Shifts g.endian (payloadCtx4to6 g p ip6).adjust (pseudoBytes4 p.ip4.src p.ip4.dest proto)
      (pseudoBytes6 ip6.src ip6.dest proto) := by
  intro len hlen
  rw [sumWords_pseudoBytes4 hlen, sumWords_pseudoBytes6 hlen,
    show (payloadCtx4to6 g p ip6).adjust = ~~~convertCksum g.endian ip6 p.ip4 from rfl, residue_not,
    residue_convertCksum, mul_neg, ← mul_assoc, scale_mul_scale, pseudo4, pseudo6]
  ring

private theorem shifts_6to4 (g : Gcfg) (p : Pkt6) (ip4 : Ip4) (proto : Byte) :
    Shifts g.endian (payloadCtx6to4 g p ip4).adjust (pseudoBytes6 p.ip6.src p.ip6.dest proto)
      (pseudoBytes4 ip4.src ip4.dest proto) := by
  intro len hlen
  rw [sumWords_pseudoBytes4 hlen, sumWords_pseudoBytes6 hlen,
    show (payloadCtx6to4 g p ip4).adjust = convertCksum g.endian p.ip6 ip4 from rfl,
    residue_convertCksum, ← mul_assoc, scale_mul_scale, pseudo4, pseudo6]
  ring

section Law

variable {x : PayloadCtx} {pseudo pseudo' : Nat → List Byte} {proto : Byte} {p : Payload} {em : Bool}

/-- A transport whose checksum is adjusted keeps a checksum that is accepted. -/
private theorem xlatePayload_ok (hproto : proto ∈ adjustedProtos) (hicmp : x.icmpProto ∉ adjustedProtos)
    (hinitial : x.noninitial = false) (hfull : needsCsum p.2 = false)
    (hlen : p.1.length < 65536) (heven : ∀ len, (pseudo len).length % 2 = 0 ∧ (pseudo' len).length % 2 = 0)
    (hne : ∀ len, sumWords (pseudo' len) ≠ 0) (hshift : Shifts g.endian x.adjust pseudo pseudo')
    (h : ChecksumOk pseudo proto p.1) :
    ∃ q, xlatePayload g x proto em p = some q ∧ ChecksumOk pseudo' proto q.1 := by
  refine ⟨_, xlatePayload_adjust hproto hicmp hinitial hfull (h.hmin.trans h.hmax) h.hgiven, ?_⟩
  refine adjustCsum_ok rfl (residue_cksumFix proto) (fun hudp ck => ?_) hlen heven hne hshift h
  rw [cksumFix, if_pos hudp]
  exact nonzeroCksum_ne_zero ck

theorem xlatePayload_icmp (hproto : proto = x.icmpProto) (hinitial : x.noninitial = false)
    (hfull : needsCsum p.2 = false) :
    xlatePayload g x proto em p = some (put p.1 0 (x.icmp (Icmp.ofBytes p.1)).toBytes, p.2) := by
  unfold xlatePayload
  rw [hfull, hinitial, if_neg (fun h => Bool.false_ne_true h.2), if_neg Bool.false_ne_true, if_pos hproto]

end Law

theorem adjusted_ne_icmp {proto : Byte} (h : proto ∈ adjustedProtos) : proto ≠ 1 ∧ proto ≠ 58 ∧ proto ≠ 0 := by
  revert proto
  decide

/-- The length in the pseudo-header of a message, as the code computes it. -/
theorem messageLen {length : BitVec 16} {headerLen n : Nat} (h : headerLen + n = length.toNat) :
    (length.setWidth 32 - BitVec.ofNat 32 headerLen).toNat = n := by
  have := length.isLt
  rw [BitVec.toNat_sub, BitVec.toNat_setWidth, BitVec.toNat_ofNat]
  omega

namespace Whole4

variable {p : Pkt4}

theorem initial (hp : Whole4 p) (ip6 : Ip6) : (payloadCtx4to6 g p ip6).noninitial = false := by
  rw [← Bool.not_eq_true]
  intro hnon
  have hfragment : p.isFragment = true := noninitial_isFragment hnon
  rw [hp.hwhole] at hfragment
  cases hfragment

theorem short (hp : Whole4 p) : p.data.length < 65536 := by
  have := hp.hlen
  have := p.ip4.length.isLt
  omega

/-- An echo message. -/
theorem preserves_icmp (hp : Whole4 p) (hicmp : p.dataProto = 1) (htype : p.icmp.type = 8 ∨ p.icmp.type = 0)
    (ip6 : Ip6) (em : Bool) (h : ChecksumOk (fun _ => []) 1 p.data) : Preserves4to6 g p ip6 em := by
  have hmin : 8 ≤ p.data.length := h.hmin
  have hold : (sumWords p.data : ZMod 65535) = 0 := by
    have hsum := (verifies_iff.1 h.hsum).1
    rwa [show ([] ++ p.data.take (covered 1 p.data)) = p.data.take p.data.length from rfl, List.take_length] at hsum
  let icmp := icmp4to6 g.endian (ip6Checksum g.endian ip6 (p.ip4.length.setWidth 32 - BitVec.ofNat 32 p.headerLen) 58)
    p.icmp
  have hq : xlatePayload4to6 g p ip6 em = some { p with data := icmp.toBytes ++ p.data.drop 8 } :=
    congrArg (Option.map _) (xlatePayload_icmp hicmp (hp.initial ip6) hp.hfull)
  have hlen : (icmp.toBytes ++ p.data.drop 8).length = p.data.length := by
    rw [List.length_append, length_icmp, List.length_drop]
    omega
  have hcover : covered 58 (icmp.toBytes ++ p.data.drop 8) = p.data.length := hlen
  have hpseudo : pseudoLen 58 (icmp.toBytes ++ p.data.drop 8) = p.data.length := hlen
  refine ⟨_, hq, ?_⟩
  rw [hicmp, if_pos rfl]
  refine ⟨by rw [hcover]; exact hmin, by rw [hcover, hlen], fun h => absurd h (by decide), ?_⟩
  rw [hcover, hpseudo, ← hlen, List.take_length, hlen]
  refine verifies_iff.2 ⟨?_, ?_⟩
  · rw [sumWords_append (length_pseudoBytes6 _ _ _ _), Nat.cast_add, sumWords_pseudoBytes6 hp.short,
      sumWords_icmp4to6 _ _ _ htype, Pkt4.icmp, icmp_append hmin, hold, residue_ip6Checksum, messageLen hp.hlen,
      mul_neg, ← mul_assoc, scale_mul_scale]
    ring
  · rw [sumWords_append (length_pseudoBytes6 _ _ _ _)]
    have hne : sumWords (pseudoBytes6 ip6.src ip6.dest 58 p.data.length) ≠ 0 :=
      sumWords_pseudoBytes6_ne_zero (by decide)
    omega

theorem preserves (hp : Whole4 p) (hproto : Checksummed4 p) (ip6 : Ip6) (em : Bool)
    (h : ChecksumOk4 p.ip4.src p.ip4.dest p.dataProto p.data) : Preserves4to6 g p ip6 em := by
  unfold ChecksumOk4 at h
  rcases hproto with hproto | ⟨hicmp, htype⟩
  · obtain ⟨h1, -, h0⟩ := adjusted_ne_icmp hproto
    rw [if_neg h1] at h
    obtain ⟨q, hq, hok⟩ : ∃ q, xlatePayload g (payloadCtx4to6 g p ip6) p.dataProto em (p.data, p.vhdr) = some q ∧
        ChecksumOk (pseudoBytes6 ip6.src ip6.dest p.dataProto) p.dataProto q.1 :=
      xlatePayload_ok hproto (show (1 : Byte) ∉ adjustedProtos by decide) (hp.initial ip6) hp.hfull hp.short
        (fun _ => ⟨length_pseudoBytes4 _ _ _ _, length_pseudoBytes6 _ _ _ _⟩)
        (fun _ => sumWords_pseudoBytes6_ne_zero h0) (shifts_4to6 g p ip6 p.dataProto) h
    refine ⟨_, congrArg (Option.map _) hq, ?_⟩
    rw [if_neg h1]
    exact hok
  · rw [hicmp, if_pos rfl] at h
    exact hp.preserves_icmp hicmp htype ip6 em h

end Whole4

namespace Whole6

variable {p : Pkt6}

theorem initial (hp : Whole6 p) (ip4 : Ip4) : (payloadCtx6to4 g p ip4).noninitial = false := by
  rw [← Bool.not_eq_true]
  intro hnon
  have hwhole := hp.hwhole
  unfold payloadCtx6to4 at hnon
  rcases hfrag : p.frag with _ | f
  · rw [hfrag] at hnon
    cases hnon
  · rw [hfrag] at hnon hwhole
    exact of_decide_eq_true hnon (and_eq_zero_of_and_or (not_not.1 (of_decide_eq_false hwhole)))

theorem short (hp : Whole6 p) : p.data.length < 65536 := by
  have := hp.hlen
  have := p.ip6.payloadLength.isLt
  omega

/-- The words of an echo message that is translated sum up to a zero, and to the wrong one if they are all zero. -/
theorem preserves_icmp (hp : Whole6 p) (hicmp : p.dataProto = 58) (htype : p.icmp.type = 128 ∨ p.icmp.type = 129)
    (ip4 : Ip4) (em : Bool) (h : ChecksumOk6 p.ip6.src p.ip6.dest 58 p.data) :
    Preserves6to4 g p ip4 em ↔ ¬ZeroReply p := by
  have hmin : 8 ≤ p.data.length := h.hmin
  have hold : pseudo6 p.ip6.src p.ip6.dest p.data.length 58 + (sumWords p.data : ZMod 65535) = 0 := by
    have hsum := (verifies_iff.1 h.hsum).1
    rwa [show p.data.take (covered 58 p.data) = p.data.take p.data.length from rfl, List.take_length,
      sumWords_append (length_pseudoBytes6 _ _ _ _), Nat.cast_add, show pseudoLen 58 p.data = p.data.length from rfl,
      sumWords_pseudoBytes6 hp.short] at hsum
  generalize hck : ~~~ip6Checksum g.endian p.ip6 (p.ip6.payloadLength.setWidth 32 - BitVec.ofNat 32 p.headerLen) 58 = ck
  have hq : xlatePayload6to4 g p ip4 em =
      some { p with data := (icmp6to4 g.endian ck p.icmp).toBytes ++ p.data.drop 8 } := by
    rw [← hck]
    exact congrArg (Option.map _) (xlatePayload_icmp hicmp (hp.initial ip4) hp.hfull)
  obtain ⟨hsum, htop⟩ := sumWords_icmp6to4 g.endian ck (p.data.drop 8) htype
  have hnew : (sumWords ((icmp6to4 g.endian ck p.icmp).toBytes ++ p.data.drop 8) : ZMod 65535) = 0 := by
    rw [hsum, Pkt6.icmp, icmp_append hmin, ← hck, residue_not, residue_ip6Checksum, messageLen hp.hlen, neg_neg,
      ← mul_assoc, scale_mul_scale, one_mul, add_comm]
    exact hold
  have hverify : Preserves6to4 g p ip4 em ↔
      Verifies ((icmp6to4 g.endian ck p.icmp).toBytes ++ p.data.drop 8) := by
    have hlen : ((icmp6to4 g.endian ck p.icmp).toBytes ++ p.data.drop 8).length = p.data.length := by
      rw [List.length_append, length_icmp, List.length_drop]
      omega
    have hcover : covered 1 ((icmp6to4 g.endian ck p.icmp).toBytes ++ p.data.drop 8) = p.data.length := hlen
    have htake := List.take_of_length_le (Nat.le_of_eq (hlen.trans hcover.symm))
    unfold Preserves6to4 ChecksumOk4
    rw [hicmp, if_pos rfl, if_pos rfl]
    constructor
    · rintro ⟨q, hq', hok⟩
      obtain rfl := Option.some.inj (hq.symm.trans hq')
      rw [← htake]
      exact hok.hsum
    · intro hverify
      refine ⟨_, hq, by rw [hcover]; exact hmin, by rw [hcover, hlen], fun h => absurd h (by decide), ?_⟩
      rw [htake]
      exact hverify
  have hbehind : be32 p.icmp.word ++ p.data.drop 8 = p.data.drop 4 := be32_getBe32_append (d := p.data) (i := 4) hmin
  have hwords := sumWords_message (icmp6to4 g.endian ck p.icmp) (p.data.drop 8)
  rw [show (icmp6to4 g.endian ck p.icmp).word = p.icmp.word from rfl, hbehind,
    show (icmp6to4 g.endian ck p.icmp).code = p.icmp.code from rfl] at hwords
  rw [hverify, verifies_iff, and_iff_right hnew, not_iff_not]
  constructor
  · intro hzero
    rw [hwords] at hzero
    refine ⟨hicmp, htype.resolve_left fun h128 => ?_, BitVec.eq_of_toNat_eq (show p.icmp.code.toNat = 0 by omega),
      (sumWords_eq_zero _).1 (by omega)⟩
    have h8 : (icmp6to4 g.endian ck p.icmp).type = 8 := if_pos h128
    rw [h8, show (8 : Byte).toNat = 8 from rfl] at hzero
    omega
  · rintro ⟨-, h129, hcode, hzero⟩
    have h0 : (icmp6to4 g.endian ck p.icmp).type = 0 := if_neg (by rw [h129]; decide)
    rw [h0, hcode, (sumWords_eq_zero _).2 hzero] at hwords
    rw [hwords] at hnew ⊢
    have hcast : residue (icmp6to4 g.endian ck p.icmp).cksum = 0 := by
      rw [← hnew]
      simp [residue]
    rw [(residue_eq_zero.1 hcast).resolve_right htop]
    rfl

theorem preserves (hp : Whole6 p) (hproto : Checksummed6 p) (ip4 : Ip4) (em : Bool)
    (h : ChecksumOk6 p.ip6.src p.ip6.dest p.dataProto p.data) : Preserves6to4 g p ip4 em ↔ ¬ZeroReply p := by
  rcases hproto with hproto | ⟨hicmp, htype⟩
  · obtain ⟨h1, h58, h0⟩ := adjusted_ne_icmp hproto
    obtain ⟨q, hq, hok⟩ : ∃ q, xlatePayload g (payloadCtx6to4 g p ip4) p.dataProto em (p.data, p.vhdr) = some q ∧
        ChecksumOk (pseudoBytes4 ip4.src ip4.dest p.dataProto) p.dataProto q.1 :=
      xlatePayload_ok hproto (show (58 : Byte) ∉ adjustedProtos by decide) (hp.initial ip4) hp.hfull hp.short
        (fun _ => ⟨length_pseudoBytes6 _ _ _ _, length_pseudoBytes4 _ _ _ _⟩)
        (fun _ => sumWords_pseudoBytes4_ne_zero h0) (shifts_6to4 g p ip4 p.dataProto) h
    refine iff_of_true ⟨_, congrArg (Option.map _) hq, ?_⟩ fun hzero => h58 hzero.1
    rw [if_neg h58, ChecksumOk4, if_neg h1]
    exact hok
  · rw [hicmp] at h
    exact hp.preserves_icmp hicmp htype ip4 em h

end Whole6

/-- **Checksums across the translation.**  A transport checksum that is accepted before the translation is accepted
after it, but for that of an ICMPv6 echo reply of zeros; and no UDP or UDP-Lite checksum becomes zero. -/
theorem checksum_preserved (g : Gcfg) (em : Bool) :
    (∀ (p : Pkt4) (ip6 : Ip6), Whole4 p →
      (Checksummed4 p → ChecksumOk4 p.ip4.src p.ip4.dest p.dataProto p.data → Preserves4to6 g p ip6 em) ∧
      ∀ q, p.dataProto = 17 ∨ p.dataProto = 136 → (p.dataProto = 17 ∨ em = true → getBe16 p.data 6 ≠ 0) →
        xlatePayload4to6 g p ip6 em = some q → getBe16 q.data 6 ≠ 0) ∧
    ∀ (p : Pkt6) (ip4 : Ip4), Whole6 p →
      (Checksummed6 p → ChecksumOk6 p.ip6.src p.ip6.dest p.dataProto p.data →
        (Preserves6to4 g p ip4 em ↔ ¬ZeroReply p)) ∧
      ∀ q, p.dataProto = 17 ∨ p.dataProto = 136 → (p.dataProto = 17 ∨ em = true → getBe16 p.data 6 ≠ 0) →
        xlatePayload6to4 g p ip4 em = some q → getBe16 q.data 6 ≠ 0 := by
  refine ⟨fun p ip6 hp => ⟨fun hproto hok => hp.preserves hproto ip6 em hok, fun q hudp hgiven hq => ?_⟩,
    fun p ip4 hp => ⟨fun hproto hok => hp.preserves hproto ip4 em hok, fun q hudp hgiven hq => ?_⟩⟩
  · obtain ⟨r, hr, rfl⟩ := Option.map_eq_some_iff.1 hq
    have hword : getBe16 r.1 6 ≠ 0 :=
      xlatePayload_given hr hudp (show (1 : Byte) ∉ adjustedProtos by decide) (hp.initial ip6) hp.hfull hgiven
    exact hword
  · obtain ⟨r, hr, rfl⟩ := Option.map_eq_some_iff.1 hq
    have hword : getBe16 r.1 6 ≠ 0 :=
      xlatePayload_given hr hudp (show (58 : Byte) ∉ adjustedProtos by decide) (hp.initial ip4) hp.hfull hgiven
    exact hword

/-- An echo request with one byte of data. -/
def pingPkt : Pkt4 where
  header := (Ip4.mk 0x45 0 29 0xbeef 0 64 1 0 0xc0000205 0xc6336407).toBytes
  data := (Icmp.mk 8 0 38653 0x00010001).toBytes ++ [0x61]
  dataProto := 1
  vhdr := none

theorem checksum_preserved_ping : Preserves4to6 sampleGcfg pingPkt
    (dataHeader4to6 pingPkt 0x20010db8000000000000000000000005 0x20010db8000000000000000000000007) false :=
  ((checksum_preserved sampleGcfg false).1 pingPkt _ ⟨by decide, by decide, by decide⟩).1
    (.inr ⟨by decide, .inl (by decide)⟩) ⟨by decide, by decide, by decide, by decide +kernel⟩

/-- An echo reply of zeros. -/
def zeroReplyPkt : Pkt6 where
  header := (Ip6.mk 0x60000000 8 58 64 0x20010db8000000000000000000000001 0x0064ff9b0000000000000000c0000201).toBytes
  frag := none
  data := (Icmp.mk 129 0 36609 0).toBytes
  dataProto := 58
  vhdr := none

/-- Its checksum is accepted in IPv6, and not in IPv4. -/
theorem not_preserves_zeroReply : Whole6 zeroReplyPkt ∧ Checksummed6 zeroReplyPkt ∧
    ChecksumOk6 zeroReplyPkt.ip6.src zeroReplyPkt.ip6.dest zeroReplyPkt.dataProto zeroReplyPkt.data ∧
    ∀ ip4, ¬Preserves6to4 sampleGcfg zeroReplyPkt ip4 false := by
  have hwhole : Whole6 zeroReplyPkt := ⟨by decide, by decide, by decide⟩
  have hproto : Checksummed6 zeroReplyPkt := .inr ⟨by decide, .inr (by decide)⟩
  have hok : ChecksumOk6 zeroReplyPkt.ip6.src zeroReplyPkt.ip6.dest zeroReplyPkt.dataProto zeroReplyPkt.data :=
    ⟨by decide, by decide, by decide, by decide +kernel⟩
  have hzero : ZeroReply zeroReplyPkt := ⟨by decide, by decide, by decide, by decide⟩
  exact ⟨hwhole, hproto, hok, fun ip4 h => (hwhole.preserves hproto ip4 false hok).1 h hzero⟩

end Tayga
