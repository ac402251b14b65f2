import Tayga.Device

/-!
# Packets on the wire

What goes out for the packets that the translator hands over: the segments of an aggregate behind its headers, with the
checksums that come from the field of the aggregate, which holds the sum of a pseudo-header.
-/

namespace Tayga

open Program OnesComplement Cut

/-! ### Checksums of segments -/

private theorem not_ofSum_ne_top {n : Nat} (h : n ≠ 0) : ~~~ofSum n ≠ 0xffff := by
  intro heq
  refine h (ofSum_eq_zero.1 ?_)
  rw [← BitVec.not_not (b := ofSum n), heq]
  rfl

private theorem segmentSum_ne_top {seed : BitVec 16} {total : Nat} {l4 : List Byte} (h : l4 ≠ []) :
    segmentSum seed total l4 ≠ 0xffff := by
  have := List.length_pos_of_ne_nil h
  exact not_ofSum_ne_top (by omega)

private theorem residue_segmentSum {seed : BitVec 16} {total : Nat} (l4 : List Byte) (h : total < 65536) :
    residue (segmentSum seed total l4) = -(residue seed - total + l4.length + sumWords l4) := by
  have htotal := residue_ofNat h
  unfold segmentSum
  rw [residue_not, residue_ofSum]
  push_cast
  rw [show ((~~~BitVec.ofNat 16 total).toNat : ZMod 65535) = residue (~~~BitVec.ofNat 16 total) from rfl, residue_not,
    htotal]
  unfold residue
  ring

theorem residue_segmentCksum {e : Endian} {l4 seg : List Byte} (ck : BitVec 16) (heven : l4.length % 2 = 0) :
    residue (segmentCksum e l4 seg ck) = -(scale e * (sumWords (l4 ++ seg) : ZMod 65535)) + residue ck := by
  have hseg : residue (if seg = [] then 0 else ipChecksum e seg) = -(scale e * (sumWords seg : ZMod 65535)) := by
    by_cases hnil : seg = []
    · rw [if_pos hnil, hnil, residue_zero, sumWords, Nat.cast_zero, mul_zero, neg_zero]
    · rw [if_neg hnil, residue_ipChecksum]
  unfold segmentCksum
  rw [residue_onesAdd, residue_onesAdd, residue_ipChecksum, hseg, sumWords_append heven]
  push_cast
  ring

private theorem segmentCksum_ne_top {e : Endian} {l4 seg : List Byte} {ck : BitVec 16} :
    segmentCksum e l4 seg ck ≠ 0xffff := by
  intro h
  exact ipChecksum_ne_top e l4 (onesAdd_eq_top.1 (onesAdd_eq_top.1 h).1).1

/-- **The two ways to a checksum**: the device's, from the field of the aggregate, and the emitter's, from the bytes of
the segment. -/
theorem segmentSum_eq {e : Endian} {pseudo : ZMod 65535} {seed ck : BitVec 16} {total : Nat} {l4 seg : List Byte}
    (htotal : total < 65536) (heven : l4.length % 2 = 0) (hne : l4 ++ seg ≠ []) (hseed : residue seed = pseudo + total)
    (hck : residue ck = -(scale e * (pseudo + (l4 ++ seg).length))) :
    segmentSum seed total (l4 ++ seg) = htons e (segmentCksum e l4 seg ck) := by
  refine residue_inj_top (segmentSum_ne_top hne) (fun h => segmentCksum_ne_top (htons_eq_iff.1 h ▸ htons_top e)) ?_
  rw [residue_segmentSum _ htotal, residue_htons, residue_segmentCksum ck heven, hck, hseed]
  linear_combination (sumWords (l4 ++ seg) + (pseudo + (l4 ++ seg).length) : ZMod 65535) * scale_mul_scale e

/-- The checksum the device completes is that of a single segment. -/
private theorem completed_eq {seed : BitVec 16} {l4 l40 : List Byte} (hsum : sumWords l4 = sumWords l40 + seed.toNat)
    (hlen : l40.length < 65536) (hpos : sumWords l40 ≠ 0) :
    ~~~ofSum (sumWords l4) = segmentSum seed l40.length l40 := by
  have hne : l40 ≠ [] := fun h => hpos (by rw [h]; rfl)
  refine residue_inj_top (not_ofSum_ne_top (by omega)) (segmentSum_ne_top hne) ?_
  rw [residue_segmentSum _ hlen, residue_not, residue_ofSum, hsum, Nat.cast_add]
  unfold residue
  ring

/-! ### Seeds -/

/-- Two halves of an address are a word of it. -/
private theorem half6_word (a : In6) {i : Nat} (hi : i < 4) : (half6 a (2 * i)).toNat = (word6 a i).toNat / 65536 ∧
    (half6 a (2 * i + 1)).toNat = (word6 a i).toNat % 65536 := by
  have hpow : 2 ^ (112 - 16 * (2 * i)) = 2 ^ (96 - 32 * i) * 65536 := by
    rw [show 112 - 16 * (2 * i) = 96 - 32 * i + 16 by omega, Nat.pow_add]
  have hexp : 112 - 16 * (2 * i + 1) = 96 - 32 * i := by omega
  rw [toNat_word6, half6, half6, BitVec.toNat_setWidth, BitVec.toNat_setWidth, BitVec.toNat_ushiftRight,
    BitVec.toNat_ushiftRight, Nat.shiftRight_eq_div_pow, Nat.shiftRight_eq_div_pow, hexp, hpow,
    ← Nat.div_div_eq_div_mul]
  generalize a.toNat / 2 ^ (96 - 32 * i) = n
  omega

private theorem cast_halves6 (a : In6) :
    ((((List.range 8).map fun i => (half6 a i).toNat).sum : Nat) : ZMod 65535) = a.toNat := by
  obtain ⟨h0, h1⟩ := half6_word a (i := 0) (by omega)
  obtain ⟨h2, h3⟩ := half6_word a (i := 1) (by omega)
  obtain ⟨h4, h5⟩ := half6_word a (i := 2) (by omega)
  obtain ⟨h6, h7⟩ := half6_word a (i := 3) (by omega)
  have hsum : ((List.range 8).map fun i => (half6 a i).toNat).sum =
      (word6 a 0).toNat % 65536 + (word6 a 0).toNat / 65536 + ((word6 a 1).toNat % 65536 + (word6 a 1).toNat / 65536) +
      ((word6 a 2).toNat % 65536 + (word6 a 2).toNat / 65536) +
      ((word6 a 3).toNat % 65536 + (word6 a 3).toNat / 65536) := by
    show (half6 a (2 * 0)).toNat + ((half6 a (2 * 0 + 1)).toNat + ((half6 a (2 * 1)).toNat +
      ((half6 a (2 * 1 + 1)).toNat + ((half6 a (2 * 2)).toNat + ((half6 a (2 * 2 + 1)).toNat +
      ((half6 a (2 * 3)).toNat + ((half6 a (2 * 3 + 1)).toNat + 0))))))) = _
    rw [h0, h1, h2, h3, h4, h5, h6, h7]
    omega
  rw [hsum, Nat.cast_add, Nat.cast_add, Nat.cast_add, cast_carry, cast_carry, cast_carry, cast_carry, cast_words6]

theorem residue_gsoCalcPseudo4 {src4 dst4 : In4} {proto : Byte} {len : Nat} (h : len < 65536) :
    residue (gsoCalcPseudo4 src4 dst4 proto (BitVec.ofNat 32 len)) = pseudo4 src4 dst4 len proto := by
  have hlen : (BitVec.ofNat 32 len &&& 0xffff).toNat = len := by
    rw [BitVec.toNat_and, BitVec.toNat_ofNat, Nat.mod_eq_of_lt (by omega)]
    exact (Nat.and_two_pow_sub_one_eq_mod len 16).trans (Nat.mod_eq_of_lt h)
  have hsrc := cast_halves src4
  have hdst := cast_halves dst4
  rw [gsoCalcPseudo4, residue_ofSum, hlen, pseudo4]
  push_cast
  linear_combination hsrc + hdst

theorem residue_gsoCalcPseudo6 {src6 dst6 : In6} {proto : Byte} {len : Nat} (h : len < 65536) :
    residue (gsoCalcPseudo6 src6 dst6 proto (BitVec.ofNat 32 len)) = pseudo6 src6 dst6 len proto := by
  have hlen := cast_halves (BitVec.ofNat 32 len)
  rw [BitVec.toNat_ofNat, Nat.mod_eq_of_lt (by omega)] at hlen
  have hsrc := cast_halves6 src6
  have hdst := cast_halves6 dst6
  rw [gsoCalcPseudo6, residue_ofSum, Nat.cast_add, Nat.cast_add, Nat.cast_add, Nat.cast_add, hsrc, hdst, pseudo6]
  linear_combination hlen

/-! ### Network headers of segments -/

/-- The sum of a header with a version in it is not zero. -/
private theorem ip4HeaderChecksum_ne_top (e : Endian) {h : Ip4} (hv : h.verIhl = 0x45) :
    ip4HeaderChecksum e h ≠ 0xffff := by
  have hlt : ∀ i, (rawWord e (getBe32 h.toBytes i)).toNat < 2 ^ 32 := fun i => (rawWord e (getBe32 h.toBytes i)).isLt
  have hfirst : (rawWord e (getBe32 h.toBytes (4 * 0))).toNat ≠ 0 := by
    have hword : getBe32 h.toBytes (4 * 0) = ofBytes4 0x45 h.tos (getU8 h.toBytes 2) (getU8 h.toBytes 3) := by
      rw [← hv]
      rfl
    have h45 : (0x45 : Byte).toNat = 69 := rfl
    rw [hword]
    cases e with
    | big =>
      rw [rawWord, toNat_ofBytes4, h45]
      omega
    | little =>
      rw [rawWord, toNat_ofBytes4, byte4_ofBytes4_zero, h45]
      omega
  have h0 := hlt (4 * 0)
  have h1 := hlt (4 * 1)
  have h2 := hlt (4 * 2)
  have h3 := hlt (4 * 3)
  have h4 := hlt (4 * 4)
  unfold ip4HeaderChecksum
  dsimp only
  intro heq
  have hnot := congrArg (fun x => (~~~x).toNat) heq
  rw [BitVec.not_not, BitVec.toNat_ofNat, show (~~~(0xffff : BitVec 16)).toNat = 0 from rfl] at hnot
  omega

/-- The checksum of a header, as the sum of its bytes gives it. -/
theorem withCksum_eq (e : Endian) {h : Ip4} (hv : h.verIhl = 0x45) :
    h.withCksum e = { h with cksum := ~~~ofSum (sumWords ({ h with cksum := 0 } : Ip4).toBytes) } := by
  have hv0 : ({ h with cksum := 0 } : Ip4).verIhl = 0x45 := hv
  have hsum : sumWords ({ h with cksum := 0 } : Ip4).toBytes ≠ 0 :=
    sumWords_cons_ne_zero (show h.verIhl ≠ 0 by rw [hv]; decide)
  have hck : htons e (ip4HeaderChecksum e { h with cksum := 0 }) =
      ~~~ofSum (sumWords ({ h with cksum := 0 } : Ip4).toBytes) := by
    refine residue_inj_top (fun h => ip4HeaderChecksum_ne_top e hv0 (htons_eq_iff.1 h ▸ htons_top e))
      (not_ofSum_ne_top hsum) ?_
    rw [residue_htons, residue_ip4HeaderChecksum, residue_not, residue_ofSum, mul_neg, ← mul_assoc, scale_mul_scale,
      one_mul]
  rw [Ip4.withCksum, hck]

theorem netSegment_ip4 {e : Endian} {h : Ip4} (hv : h.verIhl = 0x45) (rest : List Byte) (ident : BitVec 16)
    (len : Nat) :
    netSegment ((h.withCksum e).toBytes ++ rest) ident len =
      (({ h with length := BitVec.ofNat 16 len, ident := ident } : Ip4).withCksum e).toBytes := by
  have hversion : version ((h.withCksum e).toBytes ++ rest) = 4 := Ip4.version_toBytes hv rest
  have hcksum : ({ h with length := BitVec.ofNat 16 len, ident := ident } : Ip4).withCksum e = _ := withCksum_eq e hv
  rw [netSegment, if_pos hversion, Ip4.ofBytes_toBytes, hcksum]
  rfl

theorem netSegment_ip6 {h : Ip6} {tc : Byte} (hv : h.verTcFl = verTc tc) (rest : List Byte) (ident : BitVec 16)
    (len : Nat) :
    netSegment (h.toBytes ++ rest) ident len = { h with payloadLength := BitVec.ofNat 16 (len - 40) }.toBytes := by
  have hne : version (h.toBytes ++ rest) ≠ 4 := by
    rw [Ip6.version_toBytes hv]
    decide
  rw [netSegment, if_neg hne, Ip6.ofBytes_toBytes]

/-- The packets behind an IPv4 header. -/
theorem fields_behind4 {h : Ip4} (hv : h.verIhl = 0x45) {rest : List Byte} :
    transportProto (h.toBytes ++ rest) = h.proto ∧
      (h.length.toNat = 20 + rest.length → NetFits (h.toBytes ++ rest)) := by
  have hversion := Ip4.version_toBytes hv rest
  refine ⟨?_, fun hlen => ?_⟩
  · rw [transportProto, if_pos hversion]
    rfl
  · rw [NetFits, if_pos hversion, Ip4.ofBytes_toBytes, List.length_append, length_ip4]
    exact ⟨hv, hlen⟩

/-- The packets behind an IPv6 header. -/
theorem fields_behind6 {h : Ip6} {tc : Byte} (hv : h.verTcFl = verTc tc) {rest : List Byte} :
    transportProto (h.toBytes ++ rest) = h.nextHeader ∧
      (h.payloadLength.toNat = rest.length → NetFits (h.toBytes ++ rest)) := by
  have hversion := Ip6.version_toBytes hv rest
  have hne : version (h.toBytes ++ rest) ≠ 4 := by
    rw [hversion]
    decide
  refine ⟨?_, fun hlen => ?_⟩
  · rw [transportProto, if_neg hne]
    rfl
  · rw [NetFits, if_neg hne, Ip6.ofBytes_toBytes, List.length_append, length_ip6, hlen, Nat.add_comm]
    exact ⟨hversion, rfl⟩

/-! ### Aggregates behind their headers -/

section Aggregates

variable {w : VnetHdr} {net payload : List Byte} {n : Nat}

/-- The headers of a segment. -/
private theorem take_drop_headers (net l4 payload : List Byte) :
    ((net ++ (l4 ++ payload)).take (net.length + l4.length)).drop net.length = l4 := by
  rw [← List.append_assoc, List.take_left' (List.length_append), List.drop_left]

theorem even_tcp {h : TcpHdr} (hdoff : 20 + h.options.length = (h.doffRes >>> 4).toNat * 4) :
    h.toBytes.length % 2 = 0 := by
  rw [length_tcp]
  omega

/-- A TCP header with its length in it. -/
private theorem sumWords_tcp_ne_zero {h : TcpHdr} (hdoff : 20 + h.options.length = (h.doffRes >>> 4).toNat * 4)
    (rest : List Byte) : sumWords (h.toBytes ++ rest) ≠ 0 := by
  intro hzero
  have hdoffRes : h.doffRes = 0 := (sumWords_eq_zero _).1 hzero _ (by simp [TcpHdr.toBytes])
  rw [hdoffRes, show ((0 : Byte) >>> 4).toNat = 0 from rfl] at hdoff
  omega

/-- The checksum of a packet that is no aggregate. -/
private theorem completed_tcp {h : TcpHdr} (hdoff : 20 + h.options.length = (h.doffRes >>> 4).toNat * 4)
    (hstart : w.csumStart.toNat = net.length) (hoffset : w.csumOffset = 16) (hneeds : w.needsCsum)
    (hfit : (h.toBytes ++ payload).length < 65536) :
    completed w (net ++ (h.toBytes ++ payload)) =
      net ++ tcpSegment h (h.toBytes ++ payload).length ⟨0, payload, true⟩ := by
  have hsum : sumWords (h.toBytes ++ payload) =
      sumWords ({ h with cksum := 0 }.toBytes ++ payload) + h.cksum.toNat := by
    rw [sumWords_append (even_tcp hdoff), sumWords_append (even_tcp (h := { h with cksum := 0 }) hdoff), sumWords_tcp]
    omega
  have hck : ~~~ofSum (sumWords (h.toBytes ++ payload)) = _ :=
    completed_eq hsum hfit (sumWords_tcp_ne_zero (h := { h with cksum := 0 }) hdoff payload)
  unfold completed
  dsimp only
  rw [if_pos hneeds, hstart, List.drop_left, hoffset, show (16 : BitVec 16).toNat = 16 from rfl, put_append, put_tcp,
    if_neg (by decide), hck]
  unfold tcpSegment
  dsimp only
  rw [if_pos rfl, if_pos rfl, show h.seq + BitVec.ofNat 32 0 = h.seq from BitVec.add_zero _]
  rfl

/-- The virtio header of a TCP packet: its checksum is left to the device, and so are its segments of `n` bytes, of type
`t`, unless the payload of `len` bytes is no longer. -/
structure TcpOffload (w : VnetHdr) (t : Byte) (start n len : Nat) : Prop where
  htype : t = vnetGsoTcpv4 ∨ t = vnetGsoTcpv6
  hstart : w.csumStart.toNat = start
  hoffset : w.csumOffset = 16
  hneeds : w.needsCsum
  hgso : w.gso = vnetGsoNone ∧ len ≤ n ∨ w.gso = t ∧ w.gsoSize.toNat = n

/-- A TCP packet with the network header `net`. -/
structure TcpPacket (packet net : List Byte) (h : TcpHdr) (payload : List Byte) : Prop where
  hpacket : packet = net ++ (h.toBytes ++ payload)
  hnet : netLen packet = net.length
  hproto : transportProto packet = 6
  hdoff : 20 + h.options.length = (h.doffRes >>> 4).toNat * 4

section Tcp

variable {h : TcpHdr} {packet : List Byte} {t : Byte}

theorem TcpPacket.length (hp : TcpPacket packet net h payload) :
    packet.length = net.length + h.toBytes.length + payload.length := by
  rw [hp.hpacket, List.length_append, List.length_append, Nat.add_assoc]

theorem TcpPacket.transportLen (hp : TcpPacket packet net h payload) :
    Tayga.transportLen packet = h.toBytes.length := by
  rw [Tayga.transportLen, hp.hproto, if_neg (by decide), hp.hnet, hp.hpacket, List.drop_left, tcpHdrLen_toBytes,
    length_tcp, hp.hdoff]

theorem TcpPacket.headersLen (hp : TcpPacket packet net h payload) :
    Tayga.headersLen packet = net.length + h.toBytes.length := by
  rw [Tayga.headersLen, hp.hnet, hp.transportLen]

private theorem TcpPacket.checksumFits (hp : TcpPacket packet net h payload) {len : Nat}
    (hw : TcpOffload w t net.length n len) : ChecksumFits w packet := by
  intro _
  have hlen := hp.length
  rw [length_tcp] at hlen
  rw [hw.hstart, hw.hoffset, show (16 : BitVec 16).toNat = 16 from rfl]
  omega

/-- **A TCP aggregate on the wire**, or a single segment that the emitter has made a plain packet. -/
theorem onWire_tcp (hp : TcpPacket packet net h payload) (hw : TcpOffload w t net.length n payload.length)
    (hfit : (h.toBytes ++ payload).length < 65536) (hnet : netSegment packet (ident packet) packet.length = net) :
    onWire (some w) packet = numberedSegments
      (fun ident s => netSegment packet ident (net.length + h.toBytes.length + s.data.length) ++
        tcpSegment h (h.toBytes ++ payload).length s)
      (if IsDf0 packet then 1 else 0) (ident packet) (Cut.cut n 0 payload) := by
  have hlen := hp.length
  rcases hw.hgso with ⟨hnone, hle⟩ | ⟨hgso, hsize⟩
  · rw [onWire, if_pos hnone, if_pos (hp.checksumFits hw), cut_of_le 0 hle, numberedSegments, numberedSegments, ← hlen,
      hnet, ← completed_tcp hp.hdoff hw.hstart hw.hoffset hw.hneeds hfit, ← hp.hpacket]
  · have hsome : w.gso ≠ vnetGsoNone := by
      rw [hgso]
      rcases hw.htype with rfl | rfl <;> decide
    have hpayload : packet.drop (net.length + h.toBytes.length) = payload := by
      rw [hp.hpacket, ← List.append_assoc, List.drop_left' List.length_append]
    have hl4 : (packet.take (net.length + h.toBytes.length)).drop net.length = h.toBytes := by
      rw [hp.hpacket, take_drop_headers]
    have htotal : packet.length - net.length = (h.toBytes ++ payload).length := by
      rw [hlen, List.length_append]
      omega
    rw [onWire, if_neg hsome, cutInto, hp.headersLen, hpayload, hsize]
    unfold wireSegment
    dsimp only
    rw [hp.headersLen, hp.hnet, hp.hproto, hl4, TcpHdr.ofBytes_toBytes, htotal]
    rfl

/-- What is handed over for a TCP aggregate. -/
theorem handed_tcp (hp : TcpPacket packet net h payload) (hw : TcpOffload w t net.length n payload.length)
    (hfits : NetFits packet) (htype : t = gsoTypeOf packet) (hn : 0 < n) (hhdrLen : w.hdrLen.toNat ≤ packet.length) :
    Handed (some w) packet := by
  rintro v ⟨rfl⟩
  rcases hw.hgso with ⟨hnone, -⟩ | ⟨hgso, hsize⟩
  · exact .inl ⟨hnone, hp.checksumFits hw, hhdrLen⟩
  · have hlen := hp.length
    have hmin := length_tcp h
    refine .inr ⟨hfits, .inl ⟨hp.hproto, ?_⟩, ?_, hgso.trans htype, by rwa [hsize], hw.hneeds, ?_, ?_, hhdrLen⟩
    · rw [hp.transportLen]
      omega
    · rw [hp.headersLen]
      omega
    · rw [hw.hstart, hp.hnet]
    · rw [hw.hoffset, hp.hproto]
      rfl

end Tcp

/-- The virtio header of a UDP aggregate. -/
structure UdpOffload (w : VnetHdr) (start n : Nat) : Prop where
  hstart : w.csumStart.toNat = start
  hoffset : w.csumOffset = 6
  hneeds : w.needsCsum
  hgso : w.gso = vnetGsoUdpL4
  hsize : w.gsoSize.toNat = n

/-- A UDP packet with the network header `net`. -/
structure UdpPacket (packet net : List Byte) (h : UdpHdr) (payload : List Byte) : Prop where
  hpacket : packet = net ++ (h.toBytes ++ payload)
  hnet : netLen packet = net.length
  hproto : transportProto packet = 17

section Udp

variable {h : UdpHdr} {packet : List Byte}

theorem UdpPacket.length (hp : UdpPacket packet net h payload) : packet.length = net.length + 8 + payload.length := by
  rw [hp.hpacket, List.length_append, List.length_append, length_udp, Nat.add_assoc]

theorem UdpPacket.headersLen (hp : UdpPacket packet net h payload) : Tayga.headersLen packet = net.length + 8 := by
  rw [Tayga.headersLen, hp.hnet, transportLen, if_pos hp.hproto]

/-- **A UDP aggregate on the wire.** -/
theorem onWire_udp (hp : UdpPacket packet net h payload) (hw : UdpOffload w net.length n) :
    onWire (some w) packet = numberedSegments
      (fun ident s => netSegment packet ident (net.length + 8 + s.data.length) ++
        udpSegment h (h.toBytes ++ payload).length s)
      (if IsDf0 packet then 1 else 0) (ident packet) (Cut.cut n 0 payload) := by
  have hpayload : packet.drop (net.length + 8) = payload := by
    rw [hp.hpacket, ← List.append_assoc, List.drop_left' (by rw [List.length_append, length_udp])]
  have hl4 : (packet.take (net.length + 8)).drop net.length = h.toBytes := by
    rw [hp.hpacket, ← length_udp h, take_drop_headers]
  have htotal : packet.length - net.length = (h.toBytes ++ payload).length := by
    rw [hp.hpacket, List.length_append, Nat.add_sub_cancel_left]
  have hread : UdpHdr.ofBytes h.toBytes = h := UdpHdr.ofBytes_toBytes h []
  rw [onWire, if_neg (by rw [hw.hgso]; decide), cutInto, hp.headersLen, hpayload, hw.hsize]
  unfold wireSegment
  dsimp only
  rw [hp.headersLen, hp.hnet, hp.hproto, hl4, hread, htotal]
  rfl

/-- What is handed over for a UDP aggregate. -/
theorem handed_udp (hp : UdpPacket packet net h payload) (hw : UdpOffload w net.length n) (hfits : NetFits packet)
    (hn : 0 < n) (hhdrLen : w.hdrLen.toNat ≤ packet.length) : Handed (some w) packet := by
  rintro v ⟨rfl⟩
  have hlen := hp.length
  refine .inr ⟨hfits, .inr hp.hproto, ?_, ?_, by rwa [hw.hsize], hw.hneeds, ?_, ?_, hhdrLen⟩
  · rw [hp.headersLen]
    omega
  · rw [gsoTypeOf, if_pos hp.hproto]
    exact hw.hgso
  · rw [hw.hstart, hp.hnet]
  · rw [hw.hoffset, if_pos hp.hproto]

end Udp

end Aggregates

/-- A TCP header that is as long as it says. -/
theorem tcpHeader {l4Len : Nat} (l4 : List Byte) (hl4 : l4Len = tcpHdrLen l4) (hmin : 20 ≤ l4Len)
    (hfit : l4Len ≤ l4.length) :
    (TcpHdr.ofBytes (l4.take l4Len)).toBytes.length = l4Len ∧
    20 + (TcpHdr.ofBytes (l4.take l4Len)).options.length =
      ((TcpHdr.ofBytes (l4.take l4Len)).doffRes >>> 4).toNat * 4 := by
  have hlen : (l4.take l4Len).length = l4Len := List.length_take_of_le hfit
  have hbytes : (TcpHdr.ofBytes (l4.take l4Len)).toBytes.length = l4Len := by
    rw [TcpHdr.toBytes_ofBytes (by omega), hlen]
  refine ⟨hbytes, ?_⟩
  rw [length_tcp] at hbytes
  rw [hbytes, hl4]
  show _ = (getU8 (l4.take (tcpHdrLen l4)) 12 >>> 4).toNat * 4
  rw [getU8_take (by omega)]
  rfl

/-! ### Virtio headers -/

private theorem gsoTcpVhdr_gso (v : VnetHdr) {t : Byte} (old new : BitVec 16)
    (ht : t = vnetGsoTcpv4 ∨ t = vnetGsoTcpv6) :
    (gsoTcpVhdr v t old new).gso = t := by
  rcases ht with rfl | rfl
  · exact (show ∀ x : Byte, (vnetGsoTcpv4 ||| (x &&& vnetGsoEcn)) &&& ~~~vnetGsoEcn = vnetGsoTcpv4 by
      decide) v.gsoType
  · exact (show ∀ x : Byte, (vnetGsoTcpv6 ||| (x &&& vnetGsoEcn)) &&& ~~~vnetGsoEcn = vnetGsoTcpv6 by
      decide) v.gsoType

theorem needsCsum_set (x : Byte) : (x ||| vnetNeedsCsum) &&& vnetNeedsCsum ≠ 0 :=
  (show ∀ x : Byte, (x ||| vnetNeedsCsum) &&& vnetNeedsCsum ≠ 0 by decide) x

/-- The virtio header of a TCP aggregate, moved from a network header of `old` bytes to one of `new` bytes. -/
theorem tcpOffload_moved {v : VnetHdr} {t : Byte} {old new : Nat} (ht : t = vnetGsoTcpv4 ∨ t = vnetGsoTcpv6)
    (hstart : v.csumStart.toNat = old) (hoffset : v.csumOffset.toNat = 16) (hnew : new ≤ 40) {w : VnetHdr}
    (hw : w = gsoTcpVhdr v t (BitVec.ofNat 16 old) (BitVec.ofNat 16 new)) (hdrLen : BitVec 16) (len : Nat) :
    TcpOffload (gsoNormalizeTcpOutput { w with hdrLen := hdrLen } len) t new v.gsoSize.toNat len := by
  have hmoved : w.csumStart.toNat = new := by
    have hx := v.csumStart.isLt
    rw [hw]
    refine (moved_toNat (by omega) (by omega)).trans ?_
    omega
  have hoff : w.csumOffset = 16 := by
    rw [hw]
    exact BitVec.eq_of_toNat_eq hoffset
  have hneeds : w.needsCsum := by
    rw [hw]
    exact decide_eq_true (needsCsum_set v.flags)
  have hsize : w.gsoSize = v.gsoSize := by rw [hw]; rfl
  have hgso := gsoTcpVhdr_gso v (BitVec.ofNat 16 old) (BitVec.ofNat 16 new) ht
  rw [← hw] at hgso
  unfold gsoNormalizeTcpOutput
  by_cases hle : len ≤ w.gsoSize.toNat
  · rw [if_pos hle]
    exact ⟨ht, hmoved, hoff, hneeds, .inl ⟨show vnetGsoNone &&& ~~~vnetGsoEcn = vnetGsoNone by decide, hsize ▸ hle⟩⟩
  · rw [if_neg hle]
    exact ⟨ht, hmoved, hoff, hneeds, .inr ⟨hgso, congrArg _ hsize⟩⟩

/-- A UDP header with a seed in it. -/
theorem gsoUdpSeed_eq {l4 : List Byte} (hmin : 8 ≤ l4.length) (seed : BitVec 16) :
    gsoUdpSeed l4 seed = { UdpHdr.ofBytes l4 with cksum := nonzeroCksum seed }.toBytes ++ l4.drop 8 := by
  have hput := put_udp (UdpHdr.ofBytes l4) (l4.drop 8) (nonzeroCksum seed)
  rw [UdpHdr.toBytes_ofBytes hmin] at hput
  exact hput

end Tayga
