import Tayga.ChecksumLaw
import Tayga.Outputs
import Tayga.ProtocolLaw

/-!
# ICMP messages on the wire

Every ICMP error the translator writes, its own or translated, and every echo reply of its own has its length fields and
its checksums right (`WellFormedIcmp4`, `WellFormedIcmp6`), but for one: the reply to an echo request that is all zeros
behind its type has the checksum 0, where only 0xffff verifies (`icmp_wellFormed`).
-/

namespace Tayga

open Program OnesComplement

variable {g : Gcfg} {d : List Byte} {vhdr : Option VnetHdr} {ans : (op : PktOp) → op.Ans}

/-! ### Messages -/

/-- An ICMP message in IPv4: as long as its header says, with checksums that verify, and an error of at most 576
bytes. -/
structure WellFormedIcmp4 (packet : List Byte) : Prop where
  hproto : getU8 packet 9 = 1
  hlen : (getBe16 packet 2).toNat = packet.length
  hheader : Verifies (packet.take 20)
  hicmp : Verifies (packet.drop 20)
  hmax : getU8 packet 20 ≠ 8 → getU8 packet 20 ≠ 0 → packet.length ≤ 576

/-- The pseudo-header of an ICMPv6 message. -/
def pseudoHeader6 (packet : List Byte) : List Byte :=
  (packet.drop 8).take 32 ++ be32 (BitVec.ofNat 32 (packet.length - 40)) ++ [0, 0, 0, 58]

/-- An ICMPv6 message: as long as its header says, with a checksum that verifies, and an error of at most 1280 bytes. -/
structure WellFormedIcmp6 (packet : List Byte) : Prop where
  hproto : getU8 packet 6 = 58
  hlen : (getBe16 packet 4).toNat + 40 = packet.length
  hicmp : Verifies (pseudoHeader6 packet ++ packet.drop 40)
  hmax : getU8 packet 40 < 128 → packet.length ≤ 1280

/-! ### Checksums -/

theorem sumWords_cons_ne_zero {a b : Byte} {rest : List Byte} (h : a ≠ 0) : sumWords (a :: b :: rest) ≠ 0 := by
  rw [sumWords]
  have : a.toNat ≠ 0 := fun hzero => h (BitVec.eq_of_toNat_eq hzero)
  omega

theorem withCksum_verifies (e : Endian) {h : Ip4} (hv : h.verIhl = 0x45) : Verifies (h.withCksum e).toBytes :=
  verifies_iff.2 ⟨cast_sumWords_withCksum e h,
    sumWords_cons_ne_zero (show (h.withCksum e).verIhl ≠ 0 by rw [Ip4.withCksum, hv]; decide)⟩

/-- A message with the negated sum of everything in its checksum field verifies, if that sum is not zero. -/
private theorem icmp_verifies {e : Endian} {p rest : List Byte} {icmp : Icmp} {ck : BitVec 16} (hp : p.length % 2 = 0)
    (hck : residue ck = -(scale e * (sumWords (p ++ ({ icmp with cksum := 0 }.toBytes ++ rest)) : ZMod 65535)))
    (hne : sumWords (p ++ ({ icmp with cksum := 0 }.toBytes ++ rest)) ≠ 0) :
    Verifies (p ++ ({ icmp with cksum := htons e ck }.toBytes ++ rest)) := by
  have hsplit : ∀ icmp : Icmp, sumWords (p ++ (icmp.toBytes ++ rest)) =
      sumWords p + (sumWords icmp.toBytes + sumWords rest) := fun icmp => by
    rw [sumWords_append hp, sumWords_append (by rw [length_icmp])]
  have hsum : sumWords (p ++ ({ icmp with cksum := htons e ck }.toBytes ++ rest)) =
      sumWords (p ++ ({ icmp with cksum := 0 }.toBytes ++ rest)) + (htons e ck).toNat := by
    have hfield := sumWords_icmp { icmp with cksum := htons e ck }
    dsimp only at hfield
    rw [hsplit, hsplit, hfield]
    omega
  rw [verifies_iff, hsum]
  refine ⟨?_, by omega⟩
  push_cast
  rw [show ((htons e ck).toNat : ZMod 65535) = residue (htons e ck) from rfl, residue_htons, hck, mul_neg, ← mul_assoc,
    scale_mul_scale, one_mul]
  exact add_neg_cancel _

/-- The checksum over the header and the data of a message, each on its own. -/
private theorem residue_message (e : Endian) (icmp : Icmp) (data : List Byte) :
    residue (onesAdd (ipChecksum e data) (ipChecksum e icmp.toBytes)) =
    -(scale e * (sumWords (icmp.toBytes ++ data) : ZMod 65535)) := by
  rw [residue_onesAdd, residue_ipChecksum, residue_ipChecksum, sumWords_append (by rw [length_icmp])]
  push_cast
  ring

/-- The same with a header of even length behind the one of the message. -/
private theorem residue_error (e : Endian) (icmp : Icmp) {emHeader : List Byte} (emData : List Byte)
    (hem : emHeader.length % 2 = 0) :
    residue (onesAdd (ipChecksum e (icmp.toBytes ++ emHeader)) (ipChecksum e emData)) =
    -(scale e * (sumWords (icmp.toBytes ++ (emHeader ++ emData)) : ZMod 65535)) := by
  have heven : (icmp.toBytes ++ emHeader).length % 2 = 0 := by
    rw [List.length_append, length_icmp]
    omega
  rw [residue_onesAdd, residue_ipChecksum, residue_ipChecksum, ← List.append_assoc, sumWords_append heven emData]
  push_cast
  ring

/-! ### Messages in IPv4 -/

private theorem wellFormedIcmp4 {e : Endian} {h : Ip4} (icmp : Icmp) {rest : List Byte} {ck : BitVec 16}
    (hv : h.verIhl = 0x45)
    (hproto : h.proto = 1) (hlen : h.length = BitVec.ofNat 16 (28 + rest.length)) (hle : 28 + rest.length < 65536)
    (hck : residue ck = -(scale e * (sumWords ({ icmp with cksum := 0 }.toBytes ++ rest) : ZMod 65535)))
    (hne : sumWords ({ icmp with cksum := 0 }.toBytes ++ rest) ≠ 0)
    (hmax : icmp.type ≠ 8 → icmp.type ≠ 0 → rest.length ≤ 548) :
    WellFormedIcmp4 ((h.withCksum e).toBytes ++ ({ icmp with cksum := htons e ck }.toBytes ++ rest)) := by
  have hlength : ((h.withCksum e).toBytes ++ ({ icmp with cksum := htons e ck }.toBytes ++ rest)).length =
      28 + rest.length := by
    rw [List.length_append, List.length_append, length_ip4, length_icmp]
    omega
  refine ⟨hproto, ?_, ?_, ?_, fun h8 h0 => ?_⟩
  · have hrest : ({ icmp with cksum := htons e ck }.toBytes ++ rest).length = 8 + rest.length := by
      rw [List.length_append, length_icmp]
    refine ip4_length (h := h.withCksum e) ?_ (by omega)
    rw [hrest, ← Nat.add_assoc]
    exact hlen
  · rw [List.take_left' (length_ip4 _)]
    exact withCksum_verifies e hv
  · rw [List.drop_left' (length_ip4 _)]
    exact icmp_verifies (p := []) rfl hck hne
  · rw [hlength]
    have := hmax h8 h0
    omega

/-- An ICMP message the translator sends itself: an error, or a reply that is not all zeros. -/
private theorem icmpPacket4_wellFormed {e : Endian} {tos : Byte} {src dest : In4} {icmp : Icmp} {data : List Byte}
    (hle : 28 + data.length < 65536) (hne : sumWords ({ icmp with cksum := 0 }.toBytes ++ data) ≠ 0)
    (hmax : icmp.type ≠ 8 → icmp.type ≠ 0 → data.length ≤ 548) :
    WellFormedIcmp4 (icmpPacket4 e tos src dest icmp data) := by
  unfold icmpPacket4
  dsimp only
  rw [List.append_assoc]
  exact wellFormedIcmp4 icmp rfl rfl rfl hle (residue_message e _ data) hne hmax

private theorem errorPacket4_wellFormed {type code : Byte} {word : BitVec 32} {p : Pkt4}
    (htype : type ∈ ([3, 11] : List Byte)) : WellFormedIcmp4 (errorPacket4 g type code word p) := by
  have hall : ∀ type ∈ ([3, 11] : List Byte), type ≠ 0 := by decide
  have hlen : ((p.header ++ p.data).take (576 - 20 - 8)).length ≤ 548 := by
    rw [List.length_take]
    omega
  refine icmpPacket4_wellFormed (by omega) ?_ fun _ _ => hlen
  exact sumWords_cons_ne_zero (hall type htype)

/-- A translated error. -/
private theorem errorPacket6to4_wellFormed {p : Pkt6} {src dest : In4} {ip4 : Ip4} {icmp : Icmp}
    {emHeader emData : List Byte} (hem : emHeader.length = 20) (hdata : emData.length ≤ 528) (hproto : p.dataProto = 58)
    (hip4 : HeaderTo4 p src dest (8 + 20 + emData.length) ip4) (hck : icmp.cksum = 0) (htype : icmp.type ≠ 0) :
    WellFormedIcmp4 (errorPacket6to4 g ip4 icmp emHeader emData) := by
  have hicmp : ({ icmp with cksum := 0 } : Icmp) = icmp := by rw [← hck]
  have hrest : (emHeader ++ emData).length = 20 + emData.length := by rw [List.length_append, hem]
  unfold errorPacket6to4
  dsimp only
  rw [List.append_assoc, List.append_assoc]
  refine wellFormedIcmp4 icmp hip4.hverIhl ?_ ?_ ?_ ?_ ?_ fun _ _ => ?_
  · rw [show ({ ip4 with ttl := ip4.ttl - 1 } : Ip4).proto = ip4.proto from rfl, hip4.hproto, hproto]
    rfl
  · rw [show ({ ip4 with ttl := ip4.ttl - 1 } : Ip4).length = ip4.length from rfl, hip4.hlength, hrest]
    congr 1
    omega
  · omega
  · rw [hicmp]
    exact residue_error g.endian icmp emData (by rw [hem])
  · exact sumWords_cons_ne_zero htype
  · omega

/-! ### Messages in IPv6 -/

private theorem pseudoHeader6_eq (h : Ip6) (rest : List Byte) : pseudoHeader6 (h.toBytes ++ rest) =
    beIn6 h.src ++ (beIn6 h.dest ++ (be32 (BitVec.ofNat 32 rest.length) ++ [0, 0, 0, 58])) := by
  unfold pseudoHeader6
  rw [List.length_append, length_ip6, Nat.add_sub_cancel_left]
  rfl

private theorem length_pseudoHeader6 (h : Ip6) (rest : List Byte) :
    (pseudoHeader6 (h.toBytes ++ rest)).length % 2 = 0 := by
  rw [pseudoHeader6_eq, List.length_append, List.length_append, List.length_append, length_beIn6, length_beIn6,
    length_be32]
  rfl

private theorem sumWords_pseudoHeader6 {h : Ip6} {rest : List Byte} (hlt : rest.length < 2 ^ 32) :
    (sumWords (pseudoHeader6 (h.toBytes ++ rest)) : ZMod 65535) = pseudo6 h.src h.dest rest.length 58 := by
  have hproto : ((sumWords ([0, 0, 0, 58] : List Byte) : Nat) : ZMod 65535) = ((58 : Byte).toNat : ZMod 65535) := rfl
  rw [pseudoHeader6_eq, sumWords_append (by rw [length_beIn6]), sumWords_append (by rw [length_beIn6]),
    sumWords_be32_append, Nat.cast_add, Nat.cast_add, Nat.cast_add, cast_sumWords_beIn6, cast_sumWords_beIn6,
    cast_sumWords_be32, hproto, BitVec.toNat_ofNat, Nat.mod_eq_of_lt hlt, pseudo6]
  ring

private theorem wellFormedIcmp6 {e : Endian} {h : Ip6} (icmp : Icmp) {rest : List Byte} {ck : BitVec 16}
    (hproto : h.nextHeader = 58) (hlen : h.payloadLength = BitVec.ofNat 16 (8 + rest.length))
    (hle : 8 + rest.length < 65536)
    (hck : residue ck = -(scale e * (pseudo6 h.src h.dest (8 + rest.length) 58 +
      sumWords ({ icmp with cksum := 0 }.toBytes ++ rest))))
    (htype : icmp.type ≠ 0) (hmax : icmp.type.toNat < 128 → rest.length ≤ 1232) :
    WellFormedIcmp6 (h.toBytes ++ ({ icmp with cksum := htons e ck }.toBytes ++ rest)) := by
  have hrest : ∀ icmp : Icmp, (icmp.toBytes ++ rest).length = 8 + rest.length := fun icmp => by
    rw [List.length_append, length_icmp]
  have hlength : (h.toBytes ++ ({ icmp with cksum := htons e ck }.toBytes ++ rest)).length = 48 + rest.length := by
    rw [List.length_append, hrest, length_ip6]
    omega
  have hpseudo : ∀ icmp : Icmp, pseudoHeader6 (h.toBytes ++ (icmp.toBytes ++ rest)) =
      pseudoHeader6 (h.toBytes ++ ({ icmp with cksum := 0 }.toBytes ++ rest)) := by
    intro icmp
    rw [pseudoHeader6_eq, pseudoHeader6_eq, hrest, hrest]
  have heven := length_pseudoHeader6 h ({ icmp with cksum := 0 }.toBytes ++ rest)
  refine ⟨hproto, ?_, ?_, fun h => ?_⟩
  · exact ip6_length (by rw [hrest, hlen]) (by rw [hrest]; exact hle)
  · rw [List.drop_left' (length_ip6 _), hpseudo]
    refine icmp_verifies heven ?_ ?_
    · rw [hck, sumWords_append heven]
      rw [Nat.cast_add, sumWords_pseudoHeader6 (by rw [hrest]; omega), hrest]
    · rw [sumWords_append heven]
      intro hzero
      exact sumWords_cons_ne_zero htype (Nat.add_eq_zero_iff.1 hzero).2
  · rw [hlength]
    have := hmax h
    omega

/-- An ICMPv6 message the translator sends itself. -/
private theorem icmpPacket6_wellFormed {e : Endian} {tc : Byte} {src dest : In6} {icmp : Icmp} {data : List Byte}
    (hle : 8 + data.length < 65536) (htype : icmp.type ≠ 0) (hmax : icmp.type.toNat < 128 → data.length ≤ 1232) :
    WellFormedIcmp6 (icmpPacket6 e tc src dest icmp data) := by
  unfold icmpPacket6
  dsimp only
  rw [List.append_assoc]
  refine wellFormedIcmp6 icmp rfl rfl hle ?_ htype hmax
  rw [residue_onesAdd, residue_message, residue_ip6Checksum, BitVec.toNat_ofNat, Nat.mod_eq_of_lt (by omega),
    Nat.add_comm]
  ring

private theorem errorPacket6_wellFormed {type code : Byte} {word : BitVec 32} {p : Pkt6}
    (htype : type ∈ ([1, 2, 3, 4] : List Byte)) : WellFormedIcmp6 (errorPacket6 g type code word p) := by
  have hall : ∀ type ∈ ([1, 2, 3, 4] : List Byte), type ≠ 0 := by decide
  have hlen : ((p.header ++ p.data).take (1280 - 40 - 8)).length ≤ 1232 := by
    rw [List.length_take]
    omega
  exact icmpPacket6_wellFormed (by omega) (hall type htype) fun _ => hlen

/-- A translated error. -/
private theorem errorPacket4to6_wellFormed {p : Pkt4} {src dest : In6} {icmp : Icmp} {emHeader emData : List Byte}
    (heven : emHeader.length % 2 = 0) (hlen : emHeader.length + emData.length ≤ 1232) (hproto : p.dataProto = 1)
    (hck : icmp.cksum = 0) (htype : icmp.type ≠ 0) :
    WellFormedIcmp6 (errorPacket4to6 g p src dest icmp emHeader emData) := by
  have hicmp : ({ icmp with cksum := 0 } : Icmp) = icmp := by rw [← hck]
  have hrest : (emHeader ++ emData).length = emHeader.length + emData.length := List.length_append
  unfold errorPacket4to6
  dsimp only
  rw [List.append_assoc, List.append_assoc]
  refine wellFormedIcmp6 icmp ?_ ?_ ?_ ?_ htype fun _ => ?_
  · show (if p.dataProto = 1 then (58 : Byte) else p.dataProto) = 58
    rw [if_pos hproto]
  · rw [hrest, ← Nat.add_assoc]
    rfl
  · omega
  · have hpayload : ((BitVec.ofNat 16 (8 + emHeader.length + emData.length)).setWidth 32).toNat =
        8 + (emHeader.length + emData.length) := by
      rw [BitVec.toNat_setWidth, BitVec.toNat_ofNat]
      omega
    rw [hicmp, residue_onesAdd, residue_error g.endian icmp emData heven, residue_ip6Checksum, hrest,
      show (xlateHeader4to6 p src dest (8 + emHeader.length + emData.length)).payloadLength =
        BitVec.ofNat 16 (8 + emHeader.length + emData.length) from rfl, hpayload]
    show -(scale g.endian * pseudo6 src dest _ 58) + _ = -(scale g.endian * (pseudo6 src dest _ 58 + _))
    ring
  · omega

/-! ### Translated errors -/

private theorem xlateIcmpError4to6_type {icmp icmp' : Icmp} {emLength : Nat}
    (h : xlateIcmpError4to6 g icmp emLength = some icmp') :
    icmp'.cksum = 0 ∧ icmp'.type ∈ ([1, 2, 3, 4] : List Byte) := by
  unfold xlateIcmpError4to6 at h
  split at h
  · split at h
    · cases h
      exact ⟨rfl, by decide⟩
    split at h
    · cases h
      exact ⟨rfl, by decide⟩
    split at h
    · cases h
      exact ⟨rfl, by decide⟩
    split at h
    · cases h
      exact ⟨rfl, by simp⟩
    split at h
    · cases h
      exact ⟨rfl, by decide⟩
    · cases h
  split at h
  · cases h
    exact ⟨rfl, by simp⟩
  split at h
  · split at h
    · cases h
    dsimp only at h
    split at h
    · cases h
    obtain ⟨ptr, -, rfl⟩ := Option.map_eq_some_iff.1 h
    exact ⟨rfl, by simp⟩
  · cases h

theorem xlateIcmpError6to4_type {icmp icmp' : Icmp} (h : xlateIcmpError6to4 g icmp = some icmp') :
    icmp'.cksum = 0 ∧ icmp'.type ∈ ([3, 11, 12] : List Byte) := by
  unfold xlateIcmpError6to4 at h
  split at h
  · split at h
    · cases h
      exact ⟨rfl, by decide⟩
    split at h
    · cases h
      exact ⟨rfl, by decide⟩
    split at h
    · cases h
      exact ⟨rfl, by decide⟩
    · cases h
  split at h
  · dsimp only at h
    split at h
    · cases h
    · cases h
      exact ⟨rfl, by simp⟩
  split at h
  · cases h
    exact ⟨rfl, by simp⟩
  split at h
  · split at h
    · dsimp only at h
      obtain ⟨ptr, -, rfl⟩ := Option.map_eq_some_iff.1 h
      exact ⟨rfl, by simp⟩
    split at h
    · cases h
      exact ⟨rfl, by decide⟩
    · cases h
  · cases h

/-- The data of a quoted packet is no longer than what was kept of it. -/
theorem length_emCut4 {em q : Pkt4} {ip6 : Ip6} {d : List Byte} (hparse : parseIp4 d none true = .ok em)
    (h : xlatePayload4to6 g (emCut4 em) ip6 true = some q) : q.data.length ≤ 1192 - em.fragLen := by
  obtain ⟨r, hr, rfl⟩ := Option.map_eq_some_iff.1 h
  have hlen : r.1.length = (emCut4 em).data.length := by
    refine length_xlatePayload hr fun hicmp => ?_
    have h8 := ((parsed4_of_parseIp4 hparse).hicmp hicmp).1
    have hfrag : em.fragLen ≤ 8 := by
      unfold Pkt4.fragLen
      split <;> omega
    show 8 ≤ (em.data.take (mtuMin - 40 * 2 - 8 - em.fragLen)).length
    rw [List.length_take, show mtuMin = 1280 from rfl]
    omega
  show r.1.length ≤ _
  rw [hlen]
  show (em.data.take (mtuMin - 40 * 2 - 8 - em.fragLen)).length ≤ _
  rw [List.length_take, show mtuMin = 1280 from rfl]
  omega

private theorem length_emCut6 {em q : Pkt6} {ip4 : Ip4} {d : List Byte} (hparse : parseIp6 d none true = .ok em)
    (h : xlatePayload6to4 g (emCut6 em) ip4 true = some q) : q.data.length ≤ 528 := by
  obtain ⟨r, hr, rfl⟩ := Option.map_eq_some_iff.1 h
  have hlen : r.1.length = (emCut6 em).data.length := by
    refine length_xlatePayload hr fun hicmp => ?_
    obtain ⟨hs, hwf, -⟩ := parseIp6_eq_ok hparse
    have h8 := (hwf.hicmp hicmp).1
    show 8 ≤ (em.data.take (576 - 20 * 2 - 8)).length
    rw [List.length_take]
    omega
  show r.1.length ≤ _
  rw [hlen]
  show (em.data.take (576 - 20 * 2 - 8)).length ≤ _
  rw [List.length_take]
  omega

theorem length_emHeader4to6 (em : Pkt4) (src dest : In6) : (emHeader4to6 em src dest).length = 40 + em.fragLen := by
  unfold emHeader4to6 Pkt4.fragLen
  dsimp only
  split
  · rfl
  · rfl

theorem errorTo6_wellFormed {p : Pkt4} {packet : List Byte} (hproto : p.dataProto = 1) (h : ErrorTo6 g p packet) :
    WellFormedIcmp6 packet := by
  obtain @⟨em, icmp, src, dest, q, emSrc, emDest, hquote, hicmp, hpayload⟩ := h
  obtain ⟨⟨d, -, hparse⟩, -⟩ := quote4_eq_some hquote
  obtain ⟨hck, htype⟩ := xlateIcmpError4to6_type hicmp
  have hall : ∀ type ∈ ([1, 2, 3, 4] : List Byte), type ≠ 0 := by decide
  have hlen := length_emCut4 hparse hpayload
  have hfrag : em.fragLen = 0 ∨ em.fragLen = 8 := by
    unfold Pkt4.fragLen
    split
    · exact .inr rfl
    · exact .inl rfl
  refine errorPacket4to6_wellFormed ?_ ?_ hproto hck (hall _ htype)
  · rw [length_emHeader4to6]
    omega
  · rw [length_emHeader4to6]
    omega

theorem errorTo4_wellFormed {p : Pkt6} {packet : List Byte} (hproto : p.dataProto = 58) (h : ErrorTo4 g p packet) :
    WellFormedIcmp4 packet := by
  obtain ⟨hquote, hicmp, hem, hpayload, hip4⟩ := h
  obtain ⟨⟨d, -, hparse⟩, -⟩ := quote6_eq_some hquote
  obtain ⟨hck, htype⟩ := xlateIcmpError6to4_type hicmp
  have hall : ∀ type ∈ ([3, 11, 12] : List Byte), type ≠ 0 := by decide
  exact errorPacket6to4_wellFormed (length_ip4 _) (length_emCut6 hparse hpayload) hproto hip4 hck (hall _ htype)

/-! ### The reply that is all zeros -/

theorem sumWords_eq_zero (d : List Byte) : sumWords d = 0 ↔ ∀ b ∈ d, b = 0 := by
  have hzero : ∀ b : Byte, b.toNat = 0 ↔ b = 0 := fun b => ⟨fun h => BitVec.eq_of_toNat_eq h, fun h => by rw [h]; rfl⟩
  induction d using sumWords.induct with
  | case1 => simp [sumWords]
  | case2 b =>
    rw [sumWords, List.forall_mem_singleton, ← hzero]
    omega
  | case3 b c d ih =>
    rw [sumWords, List.forall_mem_cons, List.forall_mem_cons, ← hzero, ← hzero]
    constructor
    · intro h
      exact ⟨by omega, by omega, ih.1 (by omega)⟩
    · rintro ⟨hb, hc, hd⟩
      have := ih.2 hd
      omega

/-- An echo request to the translator itself that is accepted and, but for its type and checksum, all zeros. -/
def ZeroEcho (g : Gcfg) (d : List Byte) (vhdr : Option VnetHdr) : Prop :=
  isGso vhdr = false ∧ ∃ p, parseIp4 d vhdr false = .ok p ∧ Valid4 g p ∧ p.ip4.dest = g.localAddr4 ∧
    p.dataProto = 1 ∧ p.icmp.type = 8 ∧ p.icmp.code = 0 ∧ ∀ b ∈ p.data.drop 4, b = 0

theorem be32_getBe32_append {d : List Byte} {i : Nat} (h : i + 4 ≤ d.length) :
    be32 (getBe32 d i) ++ d.drop (i + 4) = d.drop i := by
  obtain ⟨b0, b1, b2, b3, rest, hd⟩ : ∃ b0 b1 b2 b3 rest, d.drop i = b0 :: b1 :: b2 :: b3 :: rest := by
    have hlen : 4 ≤ (d.drop i).length := by
      rw [List.length_drop]
      omega
    match d.drop i, hlen with
    | b0 :: b1 :: b2 :: b3 :: rest, _ => exact ⟨b0, b1, b2, b3, rest, rfl⟩
  have hget : getBe32 d i = ofBytes4 b0 b1 b2 b3 := by
    unfold getBe32
    rw [show getU8 d i = getU8 (d.drop i) 0 from (getU8_drop d i 0).symm, ← getU8_drop, ← getU8_drop, ← getU8_drop, hd]
    rfl
  rw [hget, ← List.drop_drop, hd]
  simp [be32]

/-- The words of the reply to an echo request. -/
private theorem sumWords_reply {p : Pkt4} (hlen : 8 ≤ p.data.length) :
    sumWords ({ { p.icmp with type := 0 } with cksum := 0 }.toBytes ++ p.data.drop 8) = 0 ↔
    p.icmp.code = 0 ∧ ∀ b ∈ p.data.drop 4, b = 0 := by
  have hbytes : ({ { p.icmp with type := 0 } with cksum := 0 } : Icmp).toBytes ++ p.data.drop 8 =
      0 :: p.icmp.code :: 0 :: 0 :: p.data.drop 4 := by
    have h16 : be16 0 = [0, 0] := by decide
    rw [← be32_getBe32_append (d := p.data) (i := 4) (by omega)]
    simp only [Icmp.toBytes, h16]
    rfl
  rw [hbytes, sumWords_eq_zero]
  simp only [List.forall_mem_cons]
  tauto

/-- A message of zeros gets the checksum 0 and does not verify. -/
private theorem not_verifies_zero {e : Endian} {icmp : Icmp} {data : List Byte}
    (hzero : sumWords ({ icmp with cksum := 0 }.toBytes ++ data) = 0) :
    ¬Verifies ({ icmp with cksum := htons e (onesAdd (ipChecksum e data)
      (ipChecksum e { icmp with cksum := 0 }.toBytes)) }.toBytes ++ data) := by
  generalize hck : onesAdd (ipChecksum e data) (ipChecksum e { icmp with cksum := 0 }.toBytes) = ck
  have hne : htons e ck ≠ 0xffff := by
    intro h
    rw [htons_eq_iff, htons_top, ← hck, onesAdd_eq_top] at h
    exact ipChecksum_ne_top e data h.1
  have hsum : sumWords ({ icmp with cksum := htons e ck }.toBytes ++ data) = (htons e ck).toNat := by
    have hfield := sumWords_icmp { icmp with cksum := htons e ck }
    dsimp only at hfield
    rw [sumWords_append (by rw [length_icmp])] at hzero ⊢
    omega
  rw [verifies_iff, hsum]
  rintro ⟨hres, hpos⟩
  rcases residue_eq_zero.1 hres with h | h
  · rw [h] at hpos
    exact hpos rfl
  · exact hne h

private theorem replyPacket4_wellFormed {p : Pkt4} (hp : Parsed4 d vhdr false p) (hicmp : p.dataProto = 1) :
    WellFormedIcmp4 (replyPacket4 g p) ↔ ¬(p.icmp.code = 0 ∧ ∀ b ∈ p.data.drop 4, b = 0) := by
  have hlen := (hp.hicmp hicmp).1
  have htotal := hp.hlen
  have hmin := hp.hmin
  have hmax := p.ip4.length.isLt
  have hdrop : (p.data.drop 8).length = p.data.length - 8 := List.length_drop
  rw [← sumWords_reply hlen]
  constructor
  · intro h hzero
    have hverify := h.hicmp
    unfold replyPacket4 icmpPacket4 at hverify
    dsimp only at hverify
    rw [List.append_assoc, List.drop_left' (length_ip4 _)] at hverify
    exact not_verifies_zero hzero hverify
  · intro hne
    refine icmpPacket4_wellFormed ?_ hne fun _ h => absurd rfl h
    omega

/-! ### Packets on the data path -/

theorem upper4_of_data {p q : Pkt4} {ip6 : Ip6} (hp : Parsed4 d vhdr false p) (hicmp : p.dataProto = 1)
    (hq : xlatePayload4to6 g p ip6 false = some q) : 128 ≤ (getU8 q.data 0).toNat := by
  have hfragment : p.isFragment = false := (hp.hicmp hicmp).2 rfl
  have hnon : p.noninitial ≠ true := fun h => by
    rw [noninitial_isFragment h] at hfragment
    cases hfragment
  obtain ⟨r, hr, rfl⟩ := Option.map_eq_some_iff.1 hq
  unfold xlatePayload at hr
  rw [show (payloadCtx4to6 g p ip6).fragmented = p.isFragment from rfl, hfragment, if_neg (by simp),
    show (payloadCtx4to6 g p ip6).noninitial = p.noninitial from rfl, if_neg hnon,
    if_pos (show p.dataProto = (payloadCtx4to6 g p ip6).icmpProto from hicmp)] at hr
  cases hr
  show 128 ≤ ((icmp4to6 g.endian _ (Icmp.ofBytes p.data)).type).toNat
  unfold icmp4to6
  dsimp only
  split <;> decide

theorem upper6_of_data {p q : Pkt6} {ip4 : Ip4} (hp : parseIp6 d vhdr false = .ok p) (hicmp : p.dataProto = 58)
    (hq : xlatePayload6to4 g p ip4 false = some q) : getU8 q.data 0 = 8 ∨ getU8 q.data 0 = 0 := by
  obtain ⟨hs, hwf, -⟩ := parseIp6_eq_ok hp
  have hfragment : (payloadCtx6to4 g p ip4).fragmented ≠ true := (hwf.hicmp hicmp).2 rfl
  have hnon : (payloadCtx6to4 g p ip4).noninitial ≠ true := fun h => hfragment (payloadCtx6to4_fragmented h)
  obtain ⟨r, hr, rfl⟩ := Option.map_eq_some_iff.1 hq
  unfold xlatePayload at hr
  rw [if_neg fun h => hfragment h.1, if_neg hnon,
    if_pos (show p.dataProto = (payloadCtx6to4 g p ip4).icmpProto from hicmp)] at hr
  cases hr
  show (icmp6to4 g.endian _ (Icmp.ofBytes p.data)).type = 8 ∨ (icmp6to4 g.endian _ (Icmp.ofBytes p.data)).type = 0
  unfold icmp6to4
  dsimp only
  split
  · exact .inl rfl
  · exact .inr rfl

/-! ### The law -/

/-- Of the packets to IPv6: an IPv4 packet is a message of the translator's own, an ICMPv6 error a translated one. -/
def IcmpRight4 (packet : List Byte) : Prop :=
  (version packet = 4 → WellFormedIcmp4 packet) ∧
  (version packet = 6 → getU8 packet 6 = 58 → (getU8 packet 40).toNat < 128 → WellFormedIcmp6 packet)

/-- Of the packets to IPv4: an IPv6 packet is a message of the translator's own, an ICMP error a translated one. -/
def IcmpRight6 (packet : List Byte) : Prop :=
  (version packet = 6 → WellFormedIcmp6 packet) ∧
  (version packet = 4 → getU8 packet 9 = 1 → getU8 packet 20 ≠ 8 → getU8 packet 20 ≠ 0 → WellFormedIcmp4 packet)

private theorem icmpRight4_of_ip6 {h : Ip6} {tc : Byte} (hv : h.verTcFl = verTc tc) (rest : List Byte)
    (hicmp : h.nextHeader = 58 → (getU8 rest 0).toNat < 128 → WellFormedIcmp6 (h.toBytes ++ rest)) :
    IcmpRight4 (h.toBytes ++ rest) := by
  refine ⟨fun h4 => ?_, fun _ => hicmp⟩
  rw [Ip6.version_toBytes hv] at h4
  exact absurd h4 (by decide)

private theorem icmpRight6_of_ip4 {h : Ip4} (hv : h.verIhl = 0x45) (rest : List Byte)
    (hicmp : h.proto = 1 → getU8 rest 0 ≠ 8 → getU8 rest 0 ≠ 0 → WellFormedIcmp4 (h.toBytes ++ rest)) :
    IcmpRight6 (h.toBytes ++ rest) := by
  refine ⟨fun h6 => ?_, fun _ => hicmp⟩
  rw [Ip4.version_toBytes hv] at h6
  exact absurd h6 (by decide)

theorem IcmpRight4.own {packet : List Byte} (hv : version packet = 4) (h : WellFormedIcmp4 packet) :
    IcmpRight4 packet :=
  ⟨fun _ => h, fun h6 => absurd (hv.symm.trans h6) (by decide)⟩

theorem IcmpRight6.own {packet : List Byte} (hv : version packet = 6) (h : WellFormedIcmp6 packet) :
    IcmpRight6 packet :=
  ⟨fun _ => h, fun h4 => absurd (hv.symm.trans h4) (by decide)⟩

private theorem icmpRight4_of_output {p : Pkt4} {out : Option VnetHdr} {packet : List Byte}
    (hp : Parsed4 d vhdr false p)
    (hreply : p.ip4.dest = g.localAddr4 → p.dataProto = 1 → p.icmp.type = 8 → WellFormedIcmp4 (replyPacket4 g p))
    (h : Output4 g p out packet) : IcmpRight4 packet := by
  cases h with
  | reply hdest hicmp => exact .own (version_icmpPacket4 _ _ _ _ _ _) (hreply hdest hicmp.1 hicmp.2)
  | error type code word htype => exact .own (version_icmpPacket4 _ _ _ _ _ _) (errorPacket4_wellFormed htype)
  | @whole src dest q hdata hq =>
    refine icmpRight4_of_ip6 rfl _ fun hnext htype => ?_
    have hproto : p.dataProto = 1 := by
      by_contra hne
      exact hp.hicmp6 ((if_neg hne).symm.trans hnext)
    have := upper4_of_data hp hproto hq
    omega
  | fragment _ hv hnext =>
    rw [List.append_assoc]
    refine icmpRight4_of_ip6 hv _ fun h58 => ?_
    rw [hnext] at h58
    exact absurd h58 (by decide)
  | translated _ _ hicmp h =>
    unfold DataPacket4 at hicmp
    rw [not_or, not_not] at hicmp
    refine ⟨fun h4 => ?_, fun _ _ _ => errorTo6_wellFormed hicmp.1 h⟩
    rw [errorTo6_version h] at h4
    exact absurd h4 (by decide)

private theorem icmpRight6_of_output {p : Pkt6} {out : Option VnetHdr} {packet : List Byte}
    (hp : parseIp6 d vhdr false = .ok p) (hvalid : Valid6 g p) (h : Output6 g p out packet) : IcmpRight6 packet := by
  cases h with
  | reply hdest hicmp =>
    refine .own (version_icmpPacket6 _ _ _ _ _ _) (icmpPacket6_wellFormed ?_ (show (129 : Byte) ≠ 0 by decide) ?_)
    · have hlen := hvalid.hlen
      have hmax := p.ip6.payloadLength.isLt
      obtain ⟨hs, hwf, -⟩ := parseIp6_eq_ok hp
      have h8 := (hwf.hicmp hicmp.1).1
      rw [List.length_drop]
      omega
    · exact fun h => absurd h (show ¬(129 : Byte).toNat < 128 by decide)
  | error type code word htype => exact .own (version_icmpPacket6 _ _ _ _ _ _) (errorPacket6_wellFormed htype)
  | @whole src dest ip4 q hdata hfit hip4 hq =>
    refine icmpRight6_of_ip4 (h := ip4.withCksum _) hip4.hverIhl _ fun hone h8 h0 => ?_
    obtain ⟨hs, hwf, -⟩ := parseIp6_eq_ok hp
    have hproto : p.dataProto = 58 := by
      by_contra hne
      have hone : ip4.proto = 1 := hone
      rw [hip4.hproto, proto6to4, if_neg hne] at hone
      exact hwf.hicmp4 hone
    rcases upper6_of_data hp hproto hq with h | h
    · exact absurd h h8
    · exact absurd h h0
  | translated _ _ hicmp h =>
    unfold DataPacket6 at hicmp
    rw [not_or, not_not] at hicmp
    refine ⟨fun h6 => ?_, fun _ _ _ _ => errorTo4_wellFormed hicmp.1 h⟩
    rw [errorTo4_version h] at h6
    exact absurd h6 (by decide)

theorem transport_not_icmp {proto : Byte} (h : IsTransport proto) : proto ≠ 1 ∧ proto ≠ 58 := by
  rcases h with rfl | rfl <;> decide

private theorem icmpRight4_of_gsoOutput {v : VnetHdr} {out : Option VnetHdr} {packet : List Byte}
    (h : GsoOutput4 g d v out packet) : IcmpRight4 packet := by
  cases h with
  | error type code word hproto hvalid htype =>
    exact .own (version_icmpPacket4 _ _ _ _ _ _) (errorPacket4_wellFormed htype)
  | segment rest hv hproto => exact icmpRight4_of_ip6 hv _ fun h => absurd h (transport_not_icmp hproto).2
  | tcp hv hproto => exact icmpRight4_of_ip6 hv _ fun h => absurd (hproto.symm.trans h) (by decide)
  | udp hv hproto => exact icmpRight4_of_ip6 hv _ fun h => absurd (hproto.symm.trans h) (by decide)

private theorem icmpRight6_of_gsoOutput {v : VnetHdr} {out : Option VnetHdr} {packet : List Byte}
    (h : GsoOutput6 g d v out packet) : IcmpRight6 packet := by
  cases h with
  | error type code word hproto hvalid htype =>
    exact .own (version_icmpPacket6 _ _ _ _ _ _) (errorPacket6_wellFormed htype)
  | segment rest hv hproto => exact icmpRight6_of_ip4 hv _ fun h => absurd h (transport_not_icmp hproto).1
  | tcpHead =>
    obtain ⟨h, rest, heq, hv, hproto⟩ := gsoTcpHead_ip4 (g := g) v (gsoPkt6 d v 6) (tcpHdrLen (d.drop 40)) _ _ _
    rw [heq]
    exact icmpRight6_of_ip4 hv _ fun h => absurd (hproto.symm.trans h) (by decide)
  | tcpTail =>
    obtain ⟨h, rest, heq, hv, hproto⟩ := gsoTcpTail_ip4 (g := g) (gsoPkt6 d v 6) (tcpHdrLen (d.drop 40)) _ _ _ _
    rw [heq]
    exact icmpRight6_of_ip4 hv _ fun h => absurd (hproto.symm.trans h) (by decide)
  | tcp hv hproto => exact icmpRight6_of_ip4 hv _ fun h => absurd (hproto.symm.trans h) (by decide)
  | udp hv hproto => exact icmpRight6_of_ip4 hv _ fun h => absurd (hproto.symm.trans h) (by decide)

/-- The reply that is all zeros is written, and it does not verify. -/
private theorem zeroEcho_written {offload : Bool} (h : ZeroEcho g d vhdr) :
    ∃ packet ∈ written ans (handleIp4 g offload d vhdr), ¬IcmpRight4 packet := by
  obtain ⟨hgso, p, hparse, hvalid, hdest, hicmp, htype, hcode, hzero⟩ := h
  refine ⟨replyPacket4 g p, ?_, fun hright => ?_⟩
  · have hheader : ¬(p.ip4.ttl = 0 ∨ ipChecksum g.endian p.header ≠ 0 ∨
        p.headerLen + p.data.length ≠ p.ip4.length.toNat) := by
      rw [not_or, not_or, not_not, not_not]
      exact ⟨hvalid.httl, hvalid.hheader, hvalid.hlen⟩
    unfold handleIp4 handlePlain4
    rw [hgso, if_neg Bool.false_ne_true, hparse]
    dsimp only
    rw [if_neg hheader, if_neg fun h => h.2 (hvalid.hicmp h.1), if_pos hdest, if_pos hicmp]
    unfold hostHandleIcmp4
    rw [if_pos htype]
    exact List.mem_singleton.2 rfl
  · have hwf := hright.1 (version_icmpPacket4 _ _ _ _ _ _)
    exact (replyPacket4_wellFormed (parsed4_of_parseIp4 hparse) hicmp).1 hwf ⟨hcode, hzero⟩

/-- **ICMP errors and replies are well formed**, but for the reply to an echo request that is all zeros. -/
theorem icmp_wellFormed (g : Gcfg) (offload : Bool) (d : List Byte) (vhdr : Option VnetHdr)
    (ans : (op : PktOp) → op.Ans) :
    ((∀ packet ∈ written ans (handleIp4 g offload d vhdr), IcmpRight4 packet) ↔ ¬ZeroEcho g d vhdr) ∧
    ∀ packet ∈ written ans (handleIp6 g offload d vhdr), IcmpRight6 packet := by
  refine ⟨⟨fun h hzero => ?_, fun hzero packet hmem => ?_⟩, fun packet hmem => ?_⟩
  · obtain ⟨packet, hmem, hwrong⟩ := zeroEcho_written hzero
    exact hwrong (h packet hmem)
  · obtain ⟨out, ⟨hgso, p, hparse, hvalid, h⟩ | ⟨v, -, -, h⟩⟩ := handleIp4_output.mem_written hmem
    · have hp := parsed4_of_parseIp4 hparse
      refine icmpRight4_of_output hp (fun hdest hicmp htype => ?_) h
      exact (replyPacket4_wellFormed hp hicmp).2 fun hall => hzero ⟨hgso, p, hparse, hvalid, hdest, hicmp, htype, hall⟩
    · exact icmpRight4_of_gsoOutput h
  · obtain ⟨out, ⟨hgso, p, ⟨hparse, hvalid, h⟩ | ⟨-, -, word, -, rfl⟩⟩ | ⟨v, -, -, h⟩⟩ :=
      handleIp6_output.mem_written hmem
    · exact icmpRight6_of_output hparse hvalid h
    · exact .own (version_icmpPacket6 _ _ _ _ _ _) (errorPacket6_wellFormed (by decide))
    · exact icmpRight6_of_gsoOutput h

/-- An echo request to the translator itself with identifier and sequence number zero and no data. -/
def zeroEchoRequest : List Byte :=
  [0x45, 0x00, 0x00, 0x1c, 0x00, 0x00, 0x00, 0x00, 0x40, 0x01, 0xf9, 0x15, 0xc0, 0x00, 0x02, 0x21, 0xc0, 0xa8, 0xff,
    0x01, 0x08, 0x00, 0xf7, 0xff, 0x00, 0x00, 0x00, 0x00]

/-- Its checksum verifies, and that of the reply does not. -/
theorem not_wellFormed_reply : Verifies (zeroEchoRequest.drop 20) ∧
    ∃ packet ∈ written sampleAns (handleIp4 sampleGcfg true zeroEchoRequest none), getU8 packet 20 = 0 ∧
      ¬Verifies (packet.drop 20) ∧ ¬IcmpRight4 packet := by
  have hwritten : written sampleAns (handleIp4 sampleGcfg true zeroEchoRequest none) =
      [[0x45, 0x00, 0x00, 0x1c, 0x00, 0x00, 0x00, 0x00, 0x40, 0x01, 0xf9, 0x15, 0xc0, 0xa8, 0xff, 0x01, 0xc0, 0x00,
        0x02, 0x21, 0x00, 0x00, 0x00, 0x00, 0x00, 0x00, 0x00, 0x00]] := by decide +kernel
  refine ⟨by decide +kernel, _, by rw [hwritten]; exact List.mem_singleton_self _, rfl, by decide +kernel, fun h => ?_⟩
  exact absurd (h.1 (by decide +kernel)).hicmp (by decide +kernel)

end Tayga
