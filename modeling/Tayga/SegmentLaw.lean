import Tayga.GeneratedLaw
import Tayga.TwoWays

/-!
# Segments

What goes out for an aggregate that is translated, cut by a device or by the emitters: the payloads of the segments put
together are the payload of the aggregate, every segment but the last is full, each has the headers of its place with
true lengths and checksums that verify, and the segments to IPv4 with DF clear are numbered one after the other from the
identifications reserved for them (`segments_lossless`).
-/

namespace Tayga

open Program OnesComplement Cut

variable {g : Gcfg} {d : List Byte} {v : VnetHdr} {ans : (op : PktOp) → op.Ans} {device : Device} {entry : GsoEntry}
  {l4Len : Nat}

/-! ### Transport headers -/

/-- `t` is the header of the TCP segment at `offset` of an aggregate with the header `h`: FIN and PSH are for the last
segment, CWR is for the first one. -/
structure OfTcp (h t : TcpHdr) (offset : Nat) (isFirst isLast : Prop) : Prop where
  hports : t.srcPort = h.srcPort ∧ t.dstPort = h.dstPort
  hseq : t.seq = h.seq + BitVec.ofNat 32 offset
  hrest : t.ackSeq = h.ackSeq ∧ t.doffRes = h.doffRes ∧ t.window = h.window ∧ t.urgPtr = h.urgPtr ∧
    t.options = h.options
  hends : ∀ flag, flag = tcpFlagFin ∨ flag = tcpFlagPsh →
    (t.flags &&& flag ≠ 0 ↔ isLast ∧ h.flags &&& flag ≠ 0)
  hcwr : t.flags &&& tcpFlagCwr ≠ 0 ↔ isFirst ∧ h.flags &&& tcpFlagCwr ≠ 0
  hflags : t.flags &&& ~~~(tcpFlagFin ||| tcpFlagPsh ||| tcpFlagCwr) =
    h.flags &&& ~~~(tcpFlagFin ||| tcpFlagPsh ||| tcpFlagCwr)

/-- `u` is the header of a UDP datagram of `len` bytes from an aggregate with the header `h`. -/
structure OfUdp (h u : UdpHdr) (len : Nat) : Prop where
  hports : u.srcPort = h.srcPort ∧ u.dstPort = h.dstPort
  hlength : u.length.toNat = len

/-- The transport header of a segment. -/
def OfTransport (entry : GsoEntry) (l4 seg : List Byte) (l4Len offset : Nat) (isFirst isLast : Prop) : Prop :=
  match entry with
  | .tcp | .tcpSoftware =>
    OfTcp (TcpHdr.ofBytes (l4.take l4Len)) (TcpHdr.ofBytes (seg.take l4Len)) offset isFirst isLast
  | .udp | .udpSoftware => OfUdp (UdpHdr.ofBytes l4) (UdpHdr.ofBytes seg) seg.length

/-- `seg` is the segment `s` of the transport bytes `l4`. -/
structure OfPiece (entry : GsoEntry) (pseudo : Nat → List Byte) (l4 : List Byte) (l4Len : Nat) (s : Piece Byte)
    (seg : List Byte) : Prop where
  hlength : seg.length = l4Len + s.data.length
  hdata : seg.drop l4Len = s.data
  hheader : OfTransport entry l4 seg l4Len s.offset (s.offset = 0) s.last
  hcksum : ChecksumOk pseudo entry.proto seg

section Transport

variable {e : Endian} {pseudo : Nat → List Byte} {ck : BitVec 16} {seg : List Byte} {len : Nat}

private theorem TcpHdr.ofTcp_segment (h : TcpHdr) (offset : Nat) (isLast : Bool) (ck : BitVec 16) :
    OfTcp h { h.segment offset isLast with cksum := ck } offset (offset = 0) isLast := by
  have hends : ∀ flag : Byte, flag = tcpFlagFin ∨ flag = tcpFlagPsh → ∀ x : Byte,
      x &&& ~~~tcpFlagCwr &&& flag = x &&& flag ∧ x &&& ~~~(tcpFlagFin ||| tcpFlagPsh) &&& flag = 0 := by
    rintro flag (rfl | rfl) <;> decide
  have hcwr : ∀ x : Byte, x &&& ~~~tcpFlagCwr &&& tcpFlagCwr = 0 ∧
      x &&& ~~~(tcpFlagFin ||| tcpFlagPsh) &&& tcpFlagCwr = x &&& tcpFlagCwr := by decide
  have hother : ∀ x : Byte, x &&& ~~~tcpFlagCwr &&& ~~~(tcpFlagFin ||| tcpFlagPsh ||| tcpFlagCwr) =
      x &&& ~~~(tcpFlagFin ||| tcpFlagPsh ||| tcpFlagCwr) ∧
      x &&& ~~~(tcpFlagFin ||| tcpFlagPsh) &&& ~~~(tcpFlagFin ||| tcpFlagPsh ||| tcpFlagCwr) =
      x &&& ~~~(tcpFlagFin ||| tcpFlagPsh ||| tcpFlagCwr) := by decide
  refine ⟨⟨rfl, rfl⟩, rfl, ⟨rfl, rfl, rfl, rfl, rfl⟩, fun flag hflag => ?_, ?_, ?_⟩
  all_goals
    unfold TcpHdr.segment
    dsimp only
    by_cases hoffset : 0 < offset
  · rw [if_pos hoffset, (hends flag hflag _).1]
    cases isLast
    · simp [(hends flag hflag h.flags).2]
    · simp
  · rw [if_neg hoffset]
    cases isLast
    · simp [(hends flag hflag h.flags).2]
    · simp
  · rw [if_pos hoffset, (hcwr _).1]
    simp [Nat.pos_iff_ne_zero.1 hoffset]
  · rw [if_neg hoffset]
    cases isLast <;> simp [(hcwr h.flags).2, Nat.eq_zero_of_not_pos hoffset]
  · rw [if_pos hoffset, (hother _).1]
    cases isLast
    · exact (hother _).2
    · rfl
  · rw [if_neg hoffset]
    cases isLast
    · exact (hother _).2
    · rfl

/-- A checksum field with the negated sum of everything makes the segment verify. -/
private theorem segment_verifies {l4 l40 : List Byte} (hlen : (pseudo len).length % 2 = 0)
    (hne : sumWords (pseudo len) ≠ 0) (hsum : sumWords l4 = sumWords l40 + ck.toNat)
    (hck : residue ck = -(sumWords l40 + sumWords (pseudo len) : ZMod 65535)) : Verifies (pseudo len ++ l4) := by
  rw [verifies_iff, sumWords_append hlen, hsum]
  refine ⟨?_, by omega⟩
  push_cast
  rw [show (ck.toNat : ZMod 65535) = residue ck from rfl, hck]
  ring

/-- A TCP segment is what it should be. -/
private theorem ofPiece_tcp {tcp : TcpHdr} {l4 : List Byte} (hentry : entry = .tcp ∨ entry = .tcpSoftware)
    (s : Piece Byte)
    (htcp : TcpHdr.ofBytes (l4.take l4Len) = tcp) (hl4 : tcp.toBytes.length = l4Len) (heven : l4Len % 2 = 0)
    (hpseudo : (pseudo (l4Len + s.data.length)).length % 2 = 0) (hne : sumWords (pseudo (l4Len + s.data.length)) ≠ 0)
    (hck : residue ck = -(scale e * (sumWords (pseudo (l4Len + s.data.length)) : ZMod 65535))) :
    OfPiece entry pseudo l4 l4Len s ({ tcp.segment s.offset s.last with
      cksum := htons e (segmentCksum e (tcp.segment s.offset s.last).toBytes s.data ck) }.toBytes ++ s.data) := by
  have hlen : ∀ ck : BitVec 16, ({ tcp.segment s.offset s.last with cksum := ck } : TcpHdr).toBytes.length = l4Len :=
    fun _ => (length_tcp _).trans ((length_tcp tcp).symm.trans hl4)
  have hmin : 20 ≤ l4Len := by
    rw [length_tcp] at hl4
    omega
  have hzero : ({ tcp.segment s.offset s.last with cksum := 0 } : TcpHdr) = tcp.segment s.offset s.last := rfl
  generalize hcksum : htons e (segmentCksum e (tcp.segment s.offset s.last).toBytes s.data ck) = cksum
  have hres : residue cksum = -(sumWords ((tcp.segment s.offset s.last).toBytes ++ s.data) +
      sumWords (pseudo (l4Len + s.data.length)) : ZMod 65535) := by
    rw [← hcksum, residue_htons, residue_segmentCksum ck ((hlen 0).symm ▸ heven), hck]
    linear_combination (-(sumWords ((tcp.segment s.offset s.last).toBytes ++ s.data) +
      sumWords (pseudo (l4Len + s.data.length)) : ZMod 65535)) * scale_mul_scale e
  have hlength : ({ tcp.segment s.offset s.last with cksum := cksum }.toBytes ++ s.data).length =
      l4Len + s.data.length := by rw [List.length_append, hlen]
  have hsum : sumWords ({ tcp.segment s.offset s.last with cksum := cksum }.toBytes ++ s.data) =
      sumWords ((tcp.segment s.offset s.last).toBytes ++ s.data) + cksum.toNat := by
    have hfield := sumWords_tcp { tcp.segment s.offset s.last with cksum := cksum }
    rw [sumWords_append ((hlen cksum).symm ▸ heven), sumWords_append ((hlen 0).symm ▸ heven), hfield]
    dsimp only
    rw [hzero]
    omega
  have hproto : entry.proto = 6 := by rcases hentry with rfl | rfl <;> rfl
  refine ⟨hlength, List.drop_left' (hlen cksum), ?_, ?_⟩
  · have hheader := TcpHdr.ofTcp_segment tcp s.offset s.last cksum
    have htake : ({ tcp.segment s.offset s.last with cksum := cksum }.toBytes ++ s.data).take l4Len = _ :=
      List.take_left' (hlen cksum)
    rcases hentry with rfl | rfl
    all_goals
      unfold OfTransport
      dsimp only
      rwa [htake, htcp, TcpHdr.ofBytes_toBytes]
  · generalize ({ tcp.segment s.offset s.last with cksum := cksum }.toBytes ++ s.data) = seg at hlength hsum
    have hcovered : covered 6 seg = l4Len + s.data.length := hlength
    have hpseudoLen : pseudoLen 6 seg = l4Len + s.data.length := hlength
    rw [hproto]
    refine ⟨?_, ?_, fun h => absurd h (by decide), ?_⟩
    · rw [hcovered]
      exact hmin.trans (Nat.le_add_right _ _)
    · rw [hcovered, hlength]
    · rw [hcovered, hpseudoLen, List.take_of_length_le hlength.le]
      exact segment_verifies hpseudo hne hsum hres

/-- A UDP datagram is what it should be. -/
private theorem ofPiece_udp {udp : UdpHdr} {l4 : List Byte} (hentry : entry = .udp ∨ entry = .udpSoftware)
    (s : Piece Byte) (hudp : UdpHdr.ofBytes l4 = udp) (hfit : 8 + s.data.length < 65536)
    (hpseudo : (pseudo (8 + s.data.length)).length % 2 = 0) (hne : sumWords (pseudo (8 + s.data.length)) ≠ 0)
    (hck : residue ck = -(scale e * (sumWords (pseudo (8 + s.data.length)) : ZMod 65535))) :
    OfPiece entry pseudo l4 8 s (UdpHdr.toBytes ⟨udp.srcPort, udp.dstPort, BitVec.ofNat 16 (8 + s.data.length),
      htons e (nonzeroCksum (segmentCksum e (UdpHdr.toBytes ⟨udp.srcPort, udp.dstPort,
        BitVec.ofNat 16 (8 + s.data.length), 0⟩) s.data ck))⟩ ++ s.data) := by
  generalize hu : (UdpHdr.mk udp.srcPort udp.dstPort (BitVec.ofNat 16 (8 + s.data.length)) 0) = u
  generalize hcksum : htons e (nonzeroCksum (segmentCksum e u.toBytes s.data ck)) = cksum
  have hres : residue cksum =
      -(sumWords (u.toBytes ++ s.data) + sumWords (pseudo (8 + s.data.length)) : ZMod 65535) := by
    rw [← hcksum, residue_htons, residue_nonzeroCksum, residue_segmentCksum ck (by rw [length_udp]), hck]
    linear_combination (-(sumWords (u.toBytes ++ s.data) + sumWords (pseudo (8 + s.data.length)) : ZMod 65535)) *
      scale_mul_scale e
  have hgiven : cksum ≠ 0 := by
    rw [← hcksum, ne_eq, htons_ne_zero]
    exact nonzeroCksum_ne_zero _
  have hwith : UdpHdr.mk udp.srcPort udp.dstPort (BitVec.ofNat 16 (8 + s.data.length)) cksum =
      { u with cksum := cksum } := by rw [← hu]
  have hnat : u.length.toNat = 8 + s.data.length := by
    rw [← hu, BitVec.toNat_ofNat, Nat.mod_eq_of_lt hfit]
  have hread : UdpHdr.ofBytes ({ u with cksum := cksum }.toBytes ++ s.data) = { u with cksum := cksum } :=
    UdpHdr.ofBytes_toBytes _ _
  have hlength : ({ u with cksum := cksum }.toBytes ++ s.data).length = 8 + s.data.length := by
    rw [List.length_append, length_udp]
  have hsum : sumWords ({ u with cksum := cksum }.toBytes ++ s.data) =
      sumWords (u.toBytes ++ s.data) + cksum.toNat := by
    have hfield := sumWords_udp { u with cksum := cksum }
    rw [sumWords_append (by rw [length_udp]), sumWords_append (by rw [length_udp]), hfield, ← hu]
    dsimp only
    omega
  have hproto : entry.proto = 17 := by rcases hentry with rfl | rfl <;> rfl
  have hdata : ({ u with cksum := cksum }.toBytes ++ s.data).drop 8 = s.data := List.drop_left' (length_udp _)
  rw [hwith]
  generalize { u with cksum := cksum }.toBytes ++ s.data = seg at *
  have hlen : getBe16 seg 4 = u.length := congrArg UdpHdr.length hread
  refine ⟨hlength, hdata, ?_, ?_⟩
  · have hof : OfUdp (UdpHdr.ofBytes l4) (UdpHdr.ofBytes seg) seg.length := by
      rw [hudp, hread, hlength]
      exact ⟨by rw [← hu]; exact ⟨rfl, rfl⟩, hnat⟩
    rcases hentry with rfl | rfl <;> exact hof
  · have hcovered : covered 17 seg = 8 + s.data.length := (congrArg BitVec.toNat hlen).trans hnat
    have hpseudoLen : pseudoLen 17 seg = 8 + s.data.length := hcovered
    rw [hproto]
    refine ⟨?_, ?_, fun _ => ?_, ?_⟩
    · rw [hcovered]
      exact Nat.le_add_right _ _
    · rw [hcovered, hlength]
    · rw [show getBe16 seg 6 = cksum from congrArg UdpHdr.cksum hread]
      exact hgiven
    · rw [hcovered, hpseudoLen, List.take_of_length_le hlength.le]
      exact segment_verifies hpseudo hne hsum hres

/-- All ones for a checksum that is zero. -/
theorem OfPiece.ones {l4 : List Byte} {s : Piece Byte} (h : OfPiece entry pseudo l4 l4Len s seg)
    (hproto : entry.proto = 6) (hmin : 20 ≤ l4Len) (hpseudo : ∀ n, (pseudo n).length % 2 = 0)
    (hzero : getBe16 seg 16 = 0) : OfPiece entry pseudo l4 l4Len s (put seg 16 (be16 0xffff)) := by
  have hle : l4Len ≤ seg.length := by
    rw [h.hlength]
    exact Nat.le_add_right _ _
  have hlen : (put seg 16 (be16 0xffff)).length = seg.length := length_put_be16 (by omega)
  -- the header, and the rest behind it
  have hsplit := TcpHdr.toBytes_ofBytes_take hmin hle
  have hput := put_tcp (TcpHdr.ofBytes (seg.take l4Len)) (seg.drop l4Len) 0xffff
  rw [hsplit] at hput
  have hheader : { TcpHdr.ofBytes (seg.take l4Len) with cksum := 0xffff }.toBytes.length = l4Len := by
    have hbytes := congrArg List.length
      (TcpHdr.toBytes_ofBytes (d := seg.take l4Len) (by rwa [List.length_take_of_le hle]))
    rw [length_tcp, List.length_take_of_le hle] at hbytes
    exact (length_tcp _).trans hbytes
  -- the same with a header without options, for the sum
  have hsplit20 : (TcpHdr.ofBytes (seg.take 20)).toBytes ++ seg.drop 20 = seg :=
    TcpHdr.toBytes_ofBytes_take (Nat.le_refl 20) (by omega)
  have hput20 := put_tcp (TcpHdr.ofBytes (seg.take 20)) (seg.drop 20) 0xffff
  rw [hsplit20] at hput20
  have heven : ∀ ck : BitVec 16, { TcpHdr.ofBytes (seg.take 20) with cksum := ck }.toBytes.length % 2 = 0 := by
    intro ck
    rw [length_tcp]
    show (20 + ((seg.take 20).drop 20).length) % 2 = 0
    rw [List.drop_eq_nil_of_le (by rw [List.length_take]; omega)]
    rfl
  have hfield : (TcpHdr.ofBytes (seg.take 20)).cksum = 0 := by
    show getBe16 (seg.take 20) 16 = 0
    rw [getBe16, getU8_take (by decide), getU8_take (by decide)]
    exact hzero
  have hsum : sumWords (put seg 16 (be16 0xffff)) = sumWords seg + 65535 := by
    have hones : sumWords { TcpHdr.ofBytes (seg.take 20) with cksum := 0xffff }.toBytes =
        sumWords { TcpHdr.ofBytes (seg.take 20) with cksum := 0 }.toBytes + 65535 := sumWords_tcp _
    have hnone : sumWords (TcpHdr.ofBytes (seg.take 20)).toBytes =
        sumWords { TcpHdr.ofBytes (seg.take 20) with cksum := 0 }.toBytes := by
      rw [sumWords_tcp, hfield]
      exact Nat.add_zero _
    have hseg := congrArg sumWords hsplit20
    rw [sumWords_append (heven (TcpHdr.ofBytes (seg.take 20)).cksum), hnone] at hseg
    rw [hput20, sumWords_append (heven _), hones, ← hseg]
    omega
  obtain ⟨hmin', hmax, -, hverifies⟩ := h.hcksum
  have hcovered : ∀ seg : List Byte, covered 6 seg = seg.length ∧ pseudoLen 6 seg = seg.length := fun _ => ⟨rfl, rfl⟩
  rw [hproto, (hcovered seg).1] at hmin'
  rw [hproto, (hcovered seg).1, (hcovered seg).2, List.take_length, verifies_iff, sumWords_append (hpseudo _)]
    at hverifies
  refine ⟨hlen.trans h.hlength, ?_, ?_, ?_⟩
  · rw [hput, List.drop_left' hheader]
    exact h.hdata
  · have hof := h.hheader
    have htake : TcpHdr.ofBytes ((put seg 16 (be16 0xffff)).take l4Len) =
        { TcpHdr.ofBytes (seg.take l4Len) with cksum := 0xffff } := by
      rw [hput, List.take_left' hheader, TcpHdr.ofBytes_toBytes]
    have hentry : entry = .tcp ∨ entry = .tcpSoftware := by cases entry <;> simp [GsoEntry.proto] at hproto ⊢
    rcases hentry with rfl | rfl
    all_goals
      unfold OfTransport at hof ⊢
      dsimp only at hof ⊢
      rw [htake]
      exact ⟨hof.hports, hof.hseq, hof.hrest, hof.hends, hof.hcwr, hof.hflags⟩
  · rw [hproto]
    refine ⟨?_, ?_, fun h => absurd h (by decide), ?_⟩
    · rw [(hcovered _).1, hlen]
      exact hmin'
    · rw [(hcovered _).1]
    · rw [(hcovered _).1, (hcovered _).2, List.take_length, hlen, verifies_iff, sumWords_append (hpseudo _), hsum]
      refine ⟨?_, by omega⟩
      have hzero : ((65535 : Nat) : ZMod 65535) = 0 := ZMod.natCast_self 65535
      rw [← Nat.add_assoc, Nat.cast_add, hzero, add_zero]
      exact hverifies.1

end Transport

/-! ### Packets -/

/-- The segment `s` of an aggregate from IPv4, from `r.1` to `r.2`. -/
structure Segment6 (entry : GsoEntry) (d : List Byte) (ihl l4Len : Nat) (r : In6 × In6) (s : Piece Byte)
    (packet : List Byte) : Prop where
  hlength : 40 ≤ packet.length ∧ packet.length < 40 + 65536
  hheader : Ip6.ofBytes packet = ⟨verTc (Ip4.ofBytes d).tos, BitVec.ofNat 16 (packet.length - 40), entry.proto,
    (Ip4.ofBytes d).ttl - 1, r.1, r.2⟩
  hpiece : OfPiece entry (pseudoBytes6 r.1 r.2 entry.proto) (d.drop ihl) l4Len s (packet.drop 40)

/-- The segment `s` of an aggregate from IPv6, from `r.1` to `r.2`: DF is clear up to 1260 bytes. -/
structure Segment4 (entry : GsoEntry) (d : List Byte) (l4Len : Nat) (r : In4 × In4) (s : Piece Byte)
    (packet : List Byte) : Prop where
  hlength : 20 ≤ packet.length ∧ packet.length < 65536
  hheader : ∃ ident cksum, Ip4.ofBytes packet = ⟨0x45, (Ip6.ofBytes d).tc, BitVec.ofNat 16 packet.length, ident,
    if packet.length ≤ 1260 then 0 else ip4FDf, (Ip6.ofBytes d).hopLimit - 1, entry.proto, cksum, r.1, r.2⟩
  hcksum : Verifies (packet.take 20)
  hpiece : OfPiece entry (pseudoBytes4 r.1 r.2 entry.proto) (d.drop 40) l4Len s (packet.drop 20)

section Devices

variable {s : Piece Byte} {a b : List Byte}

/-- A packet with its checksum of zero rewritten, as its header and the bytes behind it. -/
private theorem onesCksum_split {n : Nat} (hn : netLen a = n) (hle : n ≤ a.length) :
    ∃ seg, onesCksum a = a.take n ++ seg ∧
    (seg = a.drop n ∨ transportProto a = 6 ∧ getBe16 (a.drop n) 16 = 0 ∧ seg = put (a.drop n) 16 (be16 0xffff)) := by
  obtain h | ⟨htcp, -, hzero, h⟩ := onesCksum_eq a
  · exact ⟨_, h.trans (List.take_append_drop n a).symm, .inl rfl⟩
  · refine ⟨put (a.drop n) 16 (be16 0xffff), ?_, .inr ⟨htcp, ?_, rfl⟩⟩
    · have hput := put_append (a.take n) (a.drop n) (be16 0xffff) 16
      rw [List.take_append_drop, List.length_take_of_le hle] at hput
      rw [h, hn, hput]
    · rw [hn] at hzero
      rwa [getBe16, getU8_drop, getU8_drop]

theorem Segment6.fields {ihl : Nat} {r : In6 × In6} (h : Segment6 entry d ihl l4Len r s a) :
    netLen a = 40 ∧ transportProto a = entry.proto ∧ version a = 6 := by
  have hword : getBe32 a 0 = verTc (Ip4.ofBytes d).tos := congrArg Ip6.verTcFl h.hheader
  have hfirst : getU8 a 0 = byte4 (verTc (Ip4.ofBytes d).tos) 0 := by
    rw [← hword]
    exact (byte4_ofBytes4_zero _ _ _ _).symm
  have hproto : getU8 a 6 = entry.proto := congrArg Ip6.nextHeader h.hheader
  have hversion : version a = 6 := by
    rw [version, hfirst]
    exact (show ∀ tc, byte4 (verTc tc) 0 >>> 4 = 6 by decide +kernel) _
  have hne : version a ≠ 4 := by
    rw [hversion]
    decide
  exact ⟨if_neg hne, (if_neg hne).trans hproto, hversion⟩

theorem Segment4.fields {r : In4 × In4} (h : Segment4 entry d l4Len r s a) :
    netLen a = 20 ∧ transportProto a = entry.proto ∧ (Ip4.ofBytes a).verIhl = 0x45 := by
  obtain ⟨ident, cksum, hheader⟩ := h.hheader
  have hfirst : (Ip4.ofBytes a).verIhl = 0x45 := by rw [hheader]
  have hproto : getU8 a 9 = entry.proto := congrArg Ip4.proto hheader
  have hbyte : getU8 a 0 = 0x45 := hfirst
  have hversion : version a = 4 := by
    rw [version, hbyte]
    rfl
  exact ⟨if_pos hversion, (if_pos hversion).trans hproto, hfirst⟩

/-- **A segment to IPv6** may have the other zero in its checksum. -/
theorem Segment6.alike {ihl : Nat} {r : In6 × In6} (h : Segment6 entry d ihl l4Len r s b) (halike : Alike a b)
    (hmin : entry.proto = 6 → 20 ≤ l4Len) : Segment6 entry d ihl l4Len r s a := by
  induction halike with
  | refl => exact h
  | ident _ hversion _ _ i ih =>
    rw [(ih h).fields.2.2] at hversion
    exact absurd hversion (by decide)
  | @ones a b _ ih =>
    have ha := ih h
    obtain ⟨hnet, hproto, -⟩ := ha.fields
    obtain ⟨seg, hsplit, hseg⟩ := onesCksum_split hnet ha.hlength.1
    have hlen : (onesCksum a).length = a.length := length_onesCksum
    have htake : (a.take 40).length = 40 := List.length_take_of_le ha.hlength.1
    refine ⟨by rw [hlen]; exact ha.hlength, ?_, ?_⟩
    · have hread : Ip6.ofBytes (a.take 40 ++ a.drop 40) = _ := Ip6.ofBytes_append htake
      rw [hlen, hsplit, Ip6.ofBytes_append htake, ← ha.hheader, ← hread, List.take_append_drop]
    · rw [hsplit, List.drop_left' htake]
      rcases hseg with rfl | ⟨htcp, hzero, rfl⟩
      · exact ha.hpiece
      · have htcp := hproto.symm.trans htcp
        exact ha.hpiece.ones htcp (hmin htcp) (length_pseudoBytes6 _ _ _) hzero

/-- **A segment to IPv4** may have another identification with DF set as well. -/
theorem Segment4.alike {r : In4 × In4} (h : Segment4 entry d l4Len r s b) (halike : Alike a b)
    (hmin : entry.proto = 6 → 20 ≤ l4Len) : Segment4 entry d l4Len r s a := by
  induction halike with
  | refl => exact h
  | @ident a b _ _ _ hlen i ih =>
    have ha := ih h
    obtain ⟨ident, cksum, hheader⟩ := ha.hheader
    have hv : ({ Ip4.ofBytes a with ident := i } : Ip4).verIhl = 0x45 := ha.fields.2.2
    have hsame : (renumber a i).length = a.length := length_renumber hlen
    have htake : (renumber a i).take 20 = ((Ip4.ofBytes a).renumbered i).toBytes := List.take_left' (length_ip4 _)
    refine ⟨by rw [hsame]; exact ha.hlength, ⟨i, ((Ip4.ofBytes a).renumbered i).cksum, ?_⟩, ?_, ?_⟩
    · rw [Ip4.ofBytes_renumber, hsame]
      unfold Ip4.renumbered
      rw [hheader]
    · rw [htake, show (Ip4.ofBytes a).renumbered i = _ from (withCksum_eq .big hv).symm]
      exact withCksum_verifies .big hv
    · rw [drop_renumber (Nat.le_refl 20)]
      exact ha.hpiece
  | @ones a b _ ih =>
    have ha := ih h
    obtain ⟨hnet, hproto, -⟩ := ha.fields
    obtain ⟨seg, hsplit, hseg⟩ := onesCksum_split hnet ha.hlength.1
    have hlen : (onesCksum a).length = a.length := length_onesCksum
    have htake : (a.take 20).length = 20 := List.length_take_of_le ha.hlength.1
    refine ⟨by rw [hlen]; exact ha.hlength, ?_, ?_, ?_⟩
    · have hread : Ip4.ofBytes (a.take 20 ++ a.drop 20) = _ := Ip4.ofBytes_append htake.ge
      rw [hlen, hsplit, Ip4.ofBytes_append htake.ge, ← hread, List.take_append_drop]
      exact ha.hheader
    · rw [hsplit, List.take_left' htake]
      exact ha.hcksum
    · rw [hsplit, List.drop_left' htake]
      rcases hseg with rfl | ⟨htcp, hzero, rfl⟩
      · exact ha.hpiece
      · have htcp := hproto.symm.trans htcp
        exact ha.hpiece.ones htcp (hmin htcp) (length_pseudoBytes4 _ _ _) hzero

/-- What holds of the segments holds of what a device makes of them. -/
private theorem forall₂_alike {segment : Piece Byte → List Byte → Prop} {pieces : List (Piece Byte)}
    {packets outs : List (List Byte)} (h : List.Forall₂ segment pieces packets)
    (halike : List.Forall₂ Alike outs packets)
    (hsegment : ∀ s a b, segment s b → Alike a b → segment s a) : List.Forall₂ segment pieces outs := by
  induction halike generalizing pieces with
  | nil => exact h
  | cons hab _ ih =>
    cases h with
    | cons hs hrest => exact .cons (hsegment _ _ _ hs hab) (ih hrest)

end Devices

/-- `packets` are the segments of `payload`, `n` bytes each, behind headers of `headers` bytes: their payloads put
together are the payload, all but the last are full, and packet `i` is the segment of its place. -/
structure Lossless (segment : Piece Byte → List Byte → Prop) (headers n : Nat) (payload : List Byte)
    (packets : List (List Byte)) : Prop where
  hcount : packets.length = max 1 ((payload.length + n - 1) / n)
  hpayload : packets.flatMap (fun packet => packet.drop headers) = payload
  hfull : ∀ i packet, packets[i]? = some packet → i + 1 < packets.length → packet.length = headers + n
  hsegment : ∀ i packet, packets[i]? = some packet →
    segment ⟨i * n, (payload.drop (i * n)).take n, i + 1 = packets.length⟩ packet

private theorem flatMap_of_forall₂ {α β γ : Type} {R : α → β → Prop} {f : α → List γ} {f' : β → List γ} {l : List α}
    {l' : List β} (h : List.Forall₂ R l l') (hf : ∀ a b, R a b → f' b = f a) : l'.flatMap f' = l.flatMap f := by
  induction h with
  | nil => rfl
  | cons hab _ ih => rw [List.flatMap_cons, List.flatMap_cons, hf _ _ hab, ih]

private theorem Lossless.of_forall₂ {segment : Piece Byte → List Byte → Prop} {headers n : Nat} {payload : List Byte}
    {packets : List (List Byte)} (hn : 0 < n) (h : List.Forall₂ segment (Cut.cut n 0 payload) packets)
    (hlength : ∀ s packet, segment s packet → packet.length = headers + s.data.length)
    (hdata : ∀ s packet, segment s packet → packet.drop headers = s.data) :
    Lossless segment headers n payload packets := by
  have hlen := h.length_eq
  have hget : ∀ i packet, packets[i]? = some packet → ∃ hi : i < (Cut.cut n 0 payload).length,
      segment (Cut.cut n 0 payload)[i] packet := by
    intro i packet hpacket
    obtain ⟨hi, rfl⟩ := List.getElem?_eq_some_iff.1 hpacket
    exact ⟨hlen ▸ hi, (List.forall₂_iff_get.1 h).2 i (hlen ▸ hi) hi⟩
  refine ⟨hlen.symm.trans (length_cut hn 0 payload), ?_, fun i packet hpacket hlast => ?_, fun i packet hpacket => ?_⟩
  · rw [flatMap_of_forall₂ h hdata, cut_flatten]
  · obtain ⟨hi, hs⟩ := hget i packet hpacket
    rw [hlength _ _ hs, length_data hn 0 payload (hlen ▸ hlast)]
  · obtain ⟨hi, hs⟩ := hget i packet hpacket
    rwa [getElem_cut hn 0 payload hi, Nat.zero_add, hlen] at hs

/-- The packets of the pieces, one by one. -/
private theorem segmentPackets_forall₂ {build : SegmentBuilder} {segment : Piece Byte → List Byte → Prop}
    {pieces : List (Piece Byte)} (hbuild : ∀ s ∈ pieces, ∀ ident, ∃ packet next,
      build s.offset s.last ident s.data = some (packet, next) ∧ segment s packet) (ident : BitVec 16) :
    List.Forall₂ segment pieces (segmentPackets build ident pieces) := by
  induction pieces generalizing ident with
  | nil => exact .nil
  | cons s rest ih =>
    obtain ⟨hs, hrest⟩ := List.forall_mem_cons.1 hbuild
    obtain ⟨packet, next, hpacket, hsegment⟩ := hs ident
    rw [segmentPackets, hpacket]
    exact .cons hsegment (ih hrest next)

section Packets

variable {e : Endian} {s : Piece Byte} {seg : List Byte}

private theorem segment6_of {ihl : Nat} {proto : Byte} {r : In6 × In6} {p : Pkt4} (hproto : entry.proto = proto)
    (hip4 : p.ip4 = Ip4.ofBytes d) (hfit : l4Len + s.data.length < 65536)
    (hseg : OfPiece entry (pseudoBytes6 r.1 r.2 proto) (d.drop ihl) l4Len s seg) :
    Segment6 entry d ihl l4Len r s
      ((gsoIp6 p.ip4.tos (p.ip4.ttl - 1) proto r.1 r.2 (l4Len + s.data.length)).toBytes ++ seg) := by
  subst hproto
  have hlen := hseg.hlength
  have hlength :
      ((gsoIp6 p.ip4.tos (p.ip4.ttl - 1) entry.proto r.1 r.2 (l4Len + s.data.length)).toBytes ++ seg).length =
        40 + (l4Len + s.data.length) := by
    rw [List.length_append, length_ip6, hlen]
  refine ⟨by omega, ?_, by rwa [List.drop_left' (length_ip6 _)]⟩
  rw [hlength, Nat.add_sub_cancel_left, Ip6.ofBytes_toBytes, hip4]
  rfl

private theorem segment4_of {r : In4 × In4} {p : Pkt6} (hproto : entry.proto = p.dataProto)
    (hip6 : p.ip6 = Ip6.ofBytes d) (hfit : 20 + (l4Len + s.data.length) < 65536)
    (hseg : OfPiece entry (pseudoBytes4 r.1 r.2 p.dataProto) (d.drop 40) l4Len s seg) (ident : BitVec 16) :
    Segment4 entry d l4Len r s ((segmentIp4 e p r.1 r.2 ident (20 + (l4Len + s.data.length))).1.toBytes ++ seg) := by
  have hlen := hseg.hlength
  generalize hh : (segmentIp4 e p r.1 r.2 ident (20 + (l4Len + s.data.length))).1 = h
  have hlength : (h.toBytes ++ seg).length = 20 + (l4Len + s.data.length) := by
    rw [List.length_append, length_ip4, hlen]
  refine ⟨by omega, ?_, ?_, by rwa [List.drop_left' (length_ip4 _), hproto]⟩
  · rw [hlength, Ip4.ofBytes_toBytes, ← hh, ← hip6, hproto]
    unfold segmentIp4
    split
    · exact ⟨_, _, rfl⟩
    · exact ⟨_, _, rfl⟩
  · rw [List.take_left' (length_ip4 _), ← hh]
    unfold segmentIp4
    split
    · exact withCksum_verifies e rfl
    · exact withCksum_verifies e rfl

end Packets

/-! ### Aggregates -/

section To6

variable {ihl : Nat} {r : In6 × In6}

/-- A checksum of the pseudo-header, as its bytes sum up. -/
private theorem residue_pseudo6 (e : Endian) (h : Ip6) (proto : Byte) {len : Nat} (hlt : len < 65536) :
    residue (ip6Checksum e h (BitVec.ofNat 32 len) proto) =
      -(scale e * (sumWords (pseudoBytes6 h.src h.dest proto len) : ZMod 65535)) := pseudoSums6 e h proto len hlt

private theorem tcp_segments6 (hentry : entry = .tcp ∨ entry = .tcpSoftware) (hvalid : ValidHeader4 g.endian d 6 ihl)
    (hl4 : l4Len = tcpHdrLen (d.drop ihl)) (hmin : 20 ≤ l4Len) (hfit : ihl + l4Len ≤ d.length)
    (hlen : d.length < 65536) : List.Forall₂ (Segment6 entry d ihl l4Len r)
      (Cut.cut v.gsoSize.toNat 0 ((d.drop ihl).drop l4Len)) (packets4 .tcpSoftware g d v ihl l4Len r) := by
  have hproto : entry.proto = 6 := by rcases hentry with rfl | rfl <;> rfl
  have hdata : (d.drop ihl).length = d.length - ihl := List.length_drop
  obtain ⟨hbytes, hdoff⟩ := tcpHeader (d.drop ihl) hl4 hmin (by omega)
  have heven := even_tcp hdoff
  rw [hbytes] at heven
  refine segmentPackets_forall₂ (fun s hs ident => ?_) 0
  have hle := length_data_le_length hs
  rw [List.length_drop, hdata] at hle
  have hlt : l4Len + s.data.length < 65536 := by omega
  unfold builder4 buildTcp4to6
  dsimp only
  rw [if_neg (by omega), List.append_assoc]
  refine ⟨_, _, rfl, ?_⟩
  have hseg := ofPiece_tcp hentry s (show TcpHdr.ofBytes ((d.drop ihl).take l4Len) = _ from rfl) hbytes heven
    (length_pseudoBytes6 r.1 r.2 6 _) (sumWords_pseudoBytes6_ne_zero (by decide))
    (residue_pseudo6 g.endian (gsoIp6 (gsoPkt4 d v ihl 6).ip4.tos ((gsoPkt4 d v ihl 6).ip4.ttl - 1) 6 r.1 r.2
      (l4Len + s.data.length)) 6 hlt)
  exact segment6_of hproto (gsoPkt4_ip4 hvalid) hlt hseg

private theorem udp_segments6 (hentry : entry = .udp ∨ entry = .udpSoftware) (hvalid : ValidHeader4 g.endian d 17 ihl)
    (hfit : ihl + 8 ≤ d.length) (hlen : d.length < 65536) : List.Forall₂ (Segment6 entry d ihl 8 r)
      (Cut.cut v.gsoSize.toNat 0 ((d.drop ihl).drop 8)) (packets4 .udpSoftware g d v ihl 8 r) := by
  have hproto : entry.proto = 17 := by rcases hentry with rfl | rfl <;> rfl
  have hdata : (d.drop ihl).length = d.length - ihl := List.length_drop
  refine segmentPackets_forall₂ (fun s hs ident => ?_) 0
  have hle := length_data_le_length hs
  rw [List.length_drop, hdata] at hle
  have hlt : 8 + s.data.length < 65536 := by omega
  unfold builder4 buildUdp4to6
  dsimp only
  rw [if_neg (by omega), List.append_assoc]
  refine ⟨_, _, rfl, ?_⟩
  have hseg := ofPiece_udp hentry s (show UdpHdr.ofBytes (d.drop ihl) = _ from rfl) hlt
    (length_pseudoBytes6 r.1 r.2 17 _) (sumWords_pseudoBytes6_ne_zero (by decide))
    (residue_pseudo6 g.endian (gsoIp6 (gsoPkt4 d v ihl 17).ip4.tos ((gsoPkt4 d v ihl 17).ip4.ttl - 1) 17 r.1 r.2
      (8 + s.data.length)) 17 hlt)
  exact segment6_of hproto (gsoPkt4_ip4 hvalid) hlt hseg

/-- **The segments of an aggregate to IPv6**, and what a device makes of them. -/
theorem lossless4 (h : Aggregate4 entry g d v ihl l4Len) (hlen : d.length < 65536) {outs : List (List Byte)}
    (hout : List.Forall₂ Alike outs (packets4 entry g d v ihl l4Len r)) :
    Lossless (Segment6 entry d ihl l4Len r) (40 + l4Len) v.gsoSize.toNat (d.drop (ihl + l4Len)) outs := by
  have hpos := gsoSize_pos h.hheader
  have hvalid := (gsoValidateIpv4Header_valid h.hip4).1
  have hl4 := h.hl4
  have hmin : entry.proto = 6 → 20 ≤ l4Len := fun hproto => by
    cases entry with
    | tcp | tcpSoftware => exact TcpAggregate.hmin hl4
    | udp | udpSoftware => exact absurd hproto (by decide)
  rw [← List.drop_drop]
  refine .of_forall₂ hpos (forall₂_alike ?_ hout fun s a b hs hab => hs.alike hab hmin) (fun s packet hs => ?_)
    (fun s packet hs => ?_)
  · cases entry with
    | tcp | tcpSoftware =>
      exact tcp_segments6 (by simp) hvalid (TcpAggregate.hl4 hl4) (TcpAggregate.hmin hl4) (TcpAggregate.hfit hl4) hlen
    | udp | udpSoftware =>
      obtain rfl := UdpAggregate.hl4 hl4
      exact udp_segments6 (by simp) hvalid (UdpAggregate.hfit hl4) hlen
  · have hlength := hs.hpiece.hlength
    have hle := hs.hlength.1
    rw [List.length_drop] at hlength
    omega
  · rw [← List.drop_drop]
    exact hs.hpiece.hdata

end To6

section To4

variable {r : In4 × In4}

/-- The packets with DF clear have the identifications reserved for them, one after the other. -/
def Numbered (ans : (op : PktOp) → op.Ans) (packets : List (List Byte)) : Prop :=
  let df0 := packets.filter fun packet => IsDf0 packet
  df0.map ident = identBlock (ans (.reserveIp4Ident (BitVec.ofNat 16 df0.length))) df0.length

private theorem numbered_segments {build : SegmentBuilder} {h n : Nat} {payload : List Byte} (hbuild : Numbers build h)
    (hn : 0 < n) (hh : h ≤ 1260) (hlen : payload.length ≤ 65535)
    (hfit : ∀ s ∈ Cut.cut n 0 payload, h + s.data.length ≤ 65535) :
    Numbered ans (segmentPackets build (firstIdent ans (gsoDf0Segments payload.length n h)) (Cut.cut n 0 payload)) := by
  have hblock := (ident_segmentPackets hbuild _ (firstIdent ans (gsoDf0Segments payload.length n h))).2 hfit
  have hcount : (gsoDf0Segments payload.length n h).toNat = _ := gsoDf0Segments_eq hn hlen (.inr hh)
  have hlen := congrArg List.length hblock
  rw [List.length_map, length_identBlock, ← hcount] at hlen
  unfold Numbered
  dsimp only
  rw [hblock, hlen, ← hcount, BitVec.ofNat_toNat, BitVec.setWidth_eq]
  unfold firstIdent
  by_cases hzero : gsoDf0Segments payload.length n h = 0
  · rw [if_pos hzero, hzero]
    rfl
  · rw [if_neg hzero]

private theorem residue_pseudo4 (e : Endian) (h : Ip4) (proto : Byte) {len : Nat} (hlt : len < 65536) :
    residue (ip4Checksum e h (BitVec.ofNat 32 len) proto) =
      -(scale e * (sumWords (pseudoBytes4 h.src h.dest proto len) : ZMod 65535)) := pseudoSums4 e h proto len hlt

private theorem segmentIp4_addresses {e : Endian} {p : Pkt6} {src4 dst4 : In4} {nextId : BitVec 16} {len : Nat} :
    (segmentIp4 e p src4 dst4 nextId len).1.src = src4 ∧ (segmentIp4 e p src4 dst4 nextId len).1.dest = dst4 := by
  unfold segmentIp4
  split <;> exact ⟨rfl, rfl⟩

theorem Numbered.alike {outs packets : List (List Byte)} (h : Numbered ans packets)
    (halike : List.Forall₂ Alike outs packets) : Numbered ans outs := by
  have hidents := idents_alike halike
  have hlen := congrArg List.length hidents
  rw [List.length_map, List.length_map] at hlen
  unfold Numbered at h ⊢
  dsimp only at h ⊢
  rwa [hidents, hlen]

private theorem tcp_segments4 (hentry : entry = .tcp ∨ entry = .tcpSoftware) (hlen40 : 40 ≤ d.length)
    (hl4 : l4Len = tcpHdrLen (d.drop 40)) (hmin : 20 ≤ l4Len) (hle : l4Len ≤ (d.drop 40).length)
    (hpayload : ((d.drop 40).drop l4Len).length ≤ 65535)
    (hfit : ∀ s ∈ Cut.cut v.gsoSize.toNat 0 ((d.drop 40).drop l4Len), 20 + l4Len + s.data.length ≤ 65535)
    (hpos : 0 < v.gsoSize.toNat) :
    List.Forall₂ (Segment4 entry d l4Len r) (Cut.cut v.gsoSize.toNat 0 ((d.drop 40).drop l4Len))
        (packets6 .tcpSoftware g ans d v l4Len r) ∧
      Numbered ans (packets6 .tcpSoftware g ans d v l4Len r) := by
  have hproto : entry.proto = 6 := by rcases hentry with rfl | rfl <;> rfl
  obtain ⟨hbytes, hdoff⟩ := tcpHeader (d.drop 40) hl4 hmin hle
  have heven := even_tcp hdoff
  rw [hbytes] at heven
  have hmax := tcpHdrLen_le (d.drop 40)
  refine ⟨segmentPackets_forall₂ (fun s hs ident => ?_) _,
    numbered_segments (buildTcp6to4_numbers _ _) hpos (by omega) hpayload hfit⟩
  have hle := hfit s hs
  have hlt : l4Len + s.data.length < 65536 := by omega
  unfold builder6 buildTcp6to4
  dsimp only
  rw [if_neg (by omega), List.append_assoc]
  refine ⟨_, _, rfl, ?_⟩
  have hck := residue_pseudo4 g.endian (segmentIp4 g.endian (gsoPkt6 d v 6) r.1 r.2 ident
    (20 + (l4Len + s.data.length))).1 6 hlt
  rw [segmentIp4_addresses.1, segmentIp4_addresses.2] at hck
  have hseg := ofPiece_tcp hentry s (show TcpHdr.ofBytes ((d.drop 40).take l4Len) = _ from rfl) hbytes heven
    (length_pseudoBytes4 r.1 r.2 6 _) (sumWords_pseudoBytes4_ne_zero (by decide)) hck
  exact segment4_of hproto (gsoPkt6_ip6 hlen40) (by omega) hseg ident

private theorem udp_segments4 (hentry : entry = .udp ∨ entry = .udpSoftware) (hlen40 : 40 ≤ d.length)
    (hpayload : ((d.drop 40).drop 8).length ≤ 65535)
    (hfit : ∀ s ∈ Cut.cut v.gsoSize.toNat 0 ((d.drop 40).drop 8), 20 + 8 + s.data.length ≤ 65535)
    (hpos : 0 < v.gsoSize.toNat) :
    List.Forall₂ (Segment4 entry d 8 r) (Cut.cut v.gsoSize.toNat 0 ((d.drop 40).drop 8))
        (packets6 .udpSoftware g ans d v 8 r) ∧
      Numbered ans (packets6 .udpSoftware g ans d v 8 r) := by
  have hproto : entry.proto = 17 := by rcases hentry with rfl | rfl <;> rfl
  refine ⟨segmentPackets_forall₂ (fun s hs ident => ?_) _,
    numbered_segments (buildUdp6to4_numbers _) hpos (by decide) hpayload hfit⟩
  have hle := hfit s hs
  have hlt : 8 + s.data.length < 65536 := by omega
  unfold builder6 buildUdp6to4
  dsimp only
  rw [if_neg (by omega), List.append_assoc]
  refine ⟨_, _, rfl, ?_⟩
  have hck := residue_pseudo4 g.endian (segmentIp4 g.endian (gsoPkt6 d v 17) r.1 r.2 ident
    (20 + (8 + s.data.length))).1 17 hlt
  rw [segmentIp4_addresses.1, segmentIp4_addresses.2] at hck
  have hseg := ofPiece_udp hentry s (show UdpHdr.ofBytes (d.drop 40) = _ from rfl) hlt
    (length_pseudoBytes4 r.1 r.2 17 _) (sumWords_pseudoBytes4_ne_zero (by decide)) hck
  exact segment4_of hproto (gsoPkt6_ip6 hlen40) (by omega) hseg ident

/-- **The segments of an aggregate to IPv4**, and what a device makes of them. -/
theorem lossless6 (h : Aggregate6 entry d v l4Len) (hsize : 20 + largestL4 d v 40 l4Len ≤ 65535)
    {outs : List (List Byte)} (hout : List.Forall₂ Alike outs (packets6 entry g ans d v l4Len r)) :
    Lossless (Segment4 entry d l4Len r) (20 + l4Len) v.gsoSize.toNat (d.drop (40 + l4Len)) outs ∧
      Numbered ans outs := by
  have hpos := gsoSize_pos h.hheader
  have hl4 := h.hl4
  have hlen := h.length
  have hpayload := payload_le h.hip6 l4Len
  have hmin : entry.proto = 6 → 20 ≤ l4Len := fun hproto => by
    cases entry with
    | tcp | tcpSoftware => exact TcpAggregate6.hmin hl4
    | udp | udpSoftware => exact absurd hproto (by decide)
  have hfit : ∀ s ∈ Cut.cut v.gsoSize.toNat 0 ((d.drop 40).drop l4Len), 20 + l4Len + s.data.length ≤ 65535 := by
    intro s hs
    have hpiece := length_data_le hpos hs
    have hwhole := length_data_le_length hs
    rw [List.length_drop, List.length_drop] at hwhole
    unfold largestL4 maxSeg at hsize
    split at hsize <;> omega
  have hsegments : List.Forall₂ (Segment4 entry d l4Len r) (Cut.cut v.gsoSize.toNat 0 ((d.drop 40).drop l4Len))
      (packets6 entry g ans d v l4Len r) ∧ Numbered ans (packets6 entry g ans d v l4Len r) := by
    cases entry with
    | tcp | tcpSoftware =>
      have hle := TcpAggregate6.hfit hl4
      exact tcp_segments4 (by simp) hlen (TcpAggregate6.hl4 hl4) (TcpAggregate6.hmin hl4)
        (by rw [List.length_drop]; omega) hpayload hfit hpos
    | udp | udpSoftware =>
      obtain rfl := UdpAggregate.hl4 hl4
      exact udp_segments4 (by simp) hlen hpayload hfit hpos
  rw [← List.drop_drop]
  refine ⟨.of_forall₂ hpos (forall₂_alike hsegments.1 hout fun s a b hs hab => hs.alike hab hmin)
    (fun s packet hs => ?_) (fun s packet hs => ?_), hsegments.2.alike hout⟩
  · have hlength := hs.hpiece.hlength
    have hle := hs.hlength.1
    rw [List.length_drop] at hlength
    omega
  · rw [← List.drop_drop]
    exact hs.hpiece.hdata

end To4

/-! ### Aggregates that are translated -/

section Translated

private theorem wire_mapIp4ToIp6 {α : Type} {addr4 : In4} {k : Except Error In6 → PktProg α} :
    wire device ans (.call (.mapIp4ToIp6 addr4) k) = wire device ans (k (ans (.mapIp4ToIp6 addr4))) := rfl

private theorem wire_mapIp6ToIp4 {α : Type} {addr6 : In6} {dynAlloc : Bool} {k : Except Error In4 → PktProg α} :
    wire device ans (.call (.mapIp6ToIp4 addr6 dynAlloc) k) = wire device ans (k (ans (.mapIp6ToIp4 addr6 dynAlloc))) :=
  rfl

variable (device) in
/-- Nothing is sent for addresses that are mapped. -/
private theorem gsoMap4to6WithIcmp_ok {p : Pkt4} {r : In6 × In6} (h : (gsoMap4to6WithIcmp g p).answer ans = .ok r) :
    wire device ans (gsoMap4to6WithIcmp g p) = [] ∧ ans (.mapIp4ToIp6 p.ip4.src) = .ok r.1 ∧
      ans (.mapIp4ToIp6 p.ip4.dest) = .ok r.2 := by
  unfold gsoMap4to6WithIcmp at h ⊢
  by_cases hdest : p.ip4.dest = g.localAddr4
  · rw [if_pos hdest, answer_bind] at h
    cases h
  rw [if_neg hdest, answer_call] at h
  rw [if_neg hdest, wire_mapIp4ToIp6]
  rcases hdst : ans (.mapIp4ToIp6 p.ip4.dest) with (_ | _ | _) | dst6
  all_goals
    rw [hdst] at h
    dsimp only at h ⊢
  · rw [answer_bind] at h
    cases h
  · cases h
  · cases h
  rw [answer_call] at h
  rw [wire_mapIp4ToIp6]
  rcases hsrc : ans (.mapIp4ToIp6 p.ip4.src) with (_ | _ | _) | src6
  all_goals
    rw [hsrc] at h
    dsimp only at h ⊢
  · rw [answer_bind] at h
    cases h
  · cases h
  · cases h
  · cases h
    exact ⟨rfl, rfl, rfl⟩

variable (device) in
private theorem gsoMap6to4WithIcmp_ok {p : Pkt6} {r : In4 × In4} (h : (gsoMap6to4WithIcmp g p).answer ans = .ok r) :
    wire device ans (gsoMap6to4WithIcmp g p) = [] ∧ ans (.mapIp6ToIp4 p.ip6.src true) = .ok r.1 ∧
      ans (.mapIp6ToIp4 p.ip6.dest false) = .ok r.2 := by
  unfold gsoMap6to4WithIcmp at h ⊢
  by_cases hdest : p.ip6.dest = g.localAddr6
  · rw [if_pos hdest, answer_bind] at h
    cases h
  rw [if_neg hdest, answer_call] at h
  rw [if_neg hdest, wire_mapIp6ToIp4]
  rcases hdst : ans (.mapIp6ToIp4 p.ip6.dest false) with (_ | _ | _) | dst4
  all_goals
    rw [hdst] at h
    dsimp only at h ⊢
  · rw [answer_bind] at h
    cases h
  · cases h
  · cases h
  rw [answer_call] at h
  rw [wire_mapIp6ToIp4]
  rcases hsrc : ans (.mapIp6ToIp4 p.ip6.src true) with (_ | _ | _) | src4
  all_goals
    rw [hsrc] at h
    dsimp only at h ⊢
  · rw [answer_bind] at h
    cases h
  · cases h
  · cases h
  · cases h
    exact ⟨rfl, rfl, rfl⟩

/-- An aggregate from IPv4 that is translated is sent between its mapped addresses. -/
private theorem entry_translated {ihl : Nat} (hdev : Offloads device) (h : Aggregate4 entry g d v ihl l4Len)
    (hmtu : mtuMin ≤ g.mtu) (hout : ∃ packet ∈ wire device ans (entry.run g d (some v)), version packet ≠ 4) :
    ∃ r : In6 × In6,
      ans (.mapIp4ToIp6 (Ip4.ofBytes d).src) = .ok r.1 ∧ ans (.mapIp4ToIp6 (Ip4.ofBytes d).dest) = .ok r.2 ∧
      wire device ans (entry.run g d (some v)) = wire device ans (entry.send g d v ihl l4Len r) := by
  obtain ⟨hvalid, -⟩ := gsoValidateIpv4Header_valid h.hip4
  have hreply : ∀ {α : Type} {prog : PktProg α}, OnlySends Reply4 prog →
      ∀ packet ∈ wire device ans prog, version packet = 4 := by
    intro α prog hprog packet hmem
    refine (hprog.mono fun vhdr packet h out hout => ?_ : OnlySends (fun vhdr packet => ∀ out ∈ device vhdr packet,
      version out = 4) prog).wire hmem
    obtain ⟨rfl, h4⟩ := h
    rw [hdev.hplain, List.mem_singleton] at hout
    rw [hout, h4]
  obtain ⟨packet, hmem, hne⟩ := hout
  rw [entry_program h hmtu, checked4] at hmem ⊢
  rw [gsoPkt4_ip4 hvalid] at hmem ⊢
  by_cases hbig : (Ip4.ofBytes d).flagsOffset &&& ip4FDf ≠ 0 ∧
      entry.TooBig g (Ip4.ofBytes d) ihl (largestL4 d v ihl l4Len)
  · rw [if_pos hbig] at hmem
    exact absurd (hreply gsoError4_replies packet hmem) hne
  rw [if_neg hbig] at hmem ⊢
  by_cases httl : (Ip4.ofBytes d).ttl ≤ 1
  · rw [if_pos httl] at hmem
    exact absurd (hreply gsoError4_replies packet hmem) hne
  rw [if_neg httl] at hmem ⊢
  rw [wire_bind] at hmem ⊢
  cases hr : (gsoMap4to6WithIcmp g (gsoPkt4 d v ihl entry.proto)).answer ans with
  | error handled =>
    rw [hr] at hmem
    rcases List.mem_append.1 hmem with hmem | hmem
    · exact absurd (hreply gsoMap4to6WithIcmp_replies packet hmem) hne
    · cases hmem
  | ok r =>
    obtain ⟨hnil, hsrc, hdst⟩ := gsoMap4to6WithIcmp_ok device hr
    rw [gsoPkt4_ip4 hvalid] at hsrc hdst
    rw [hnil]
    exact ⟨r, hsrc, hdst, rfl⟩

/-- An aggregate from IPv6 that is translated is sent between its mapped addresses, and its segments fit the MTU. -/
private theorem entry6_translated (hdev : Offloads device) (h : Aggregate6 entry d v l4Len) (hmtu : mtuMin ≤ g.mtu)
    (hmax : g.mtu < 65536) (hout : ∃ packet ∈ wire device ans (entry.run6 g d (some v)), version packet = 4) :
    ∃ r : In4 × In4,
      ans (.mapIp6ToIp4 (Ip6.ofBytes d).src true) = .ok r.1 ∧ ans (.mapIp6ToIp4 (Ip6.ofBytes d).dest false) = .ok r.2 ∧
      40 + largestL4 d v 40 l4Len ≤ g.mtu ∧
      wire device ans (entry.run6 g d (some v)) = wire device ans (entry.send6 g d v l4Len r) := by
  have hip6 : (gsoPkt6 d v entry.proto).ip6 = Ip6.ofBytes d := gsoPkt6_ip6 h.length
  have hp : (gsoPkt6 d v entry.proto).dataProto ≠ 58 := entry.isTransport_proto.ne_icmp.2
  have hother : ∀ {α : Type} {prog : PktProg α}, OnlySends Plain prog → prog.Asks Quiet (fun _ => True) →
      ∀ packet ∈ wire device ans prog, version packet ≠ 4 := by
    intro α prog hplain hquiet packet hmem
    rw [hdev.wire_plain hplain] at hmem
    obtain ⟨op, hop, hout⟩ := List.mem_filterMap.1 hmem
    have hop := hquiet.asked ans op hop
    cases op with
    | write vhdr packet =>
      cases hout
      exact hop
    | _ => cases hout
  obtain ⟨packet, hmem, hversion⟩ := hout
  rw [entry6_program h hmtu hmax, checked6] at hmem ⊢
  rw [hip6] at hmem ⊢
  by_cases hbig : entry.TooBig6 g (Ip6.ofBytes d) (largestL4 d v 40 l4Len)
  · rw [if_pos hbig] at hmem
    exact absurd hversion (hother (gsoError6_plain hp) gsoError6_quiet packet hmem)
  rw [if_neg hbig] at hmem ⊢
  by_cases hhops : (Ip6.ofBytes d).hopLimit ≤ 1
  · rw [if_pos hhops] at hmem
    exact absurd hversion (hother (gsoError6_plain hp) gsoError6_quiet packet hmem)
  rw [if_neg hhops] at hmem ⊢
  rw [wire_bind] at hmem ⊢
  cases hr : (gsoMap6to4WithIcmp g (gsoPkt6 d v entry.proto)).answer ans with
  | error handled =>
    rw [hr] at hmem
    rcases List.mem_append.1 hmem with hmem | hmem
    · exact absurd hversion (hother (gsoMap6to4WithIcmp_plain hp) gsoMap6to4WithIcmp_quiet packet hmem)
    · cases hmem
  | ok r =>
    obtain ⟨hnil, hsrc, hdst⟩ := gsoMap6to4WithIcmp_ok device hr
    rw [hip6] at hsrc hdst
    rw [hnil]
    exact ⟨r, hsrc, hdst, Nat.not_lt.1 fun hlt => hbig (GsoEntry.tooBig6_of_exceeds hhops hlt), rfl⟩

/-- The packets of an aggregate to IPv6, as a device sends them. -/
private theorem wire_send4 (hdev : Offloads device) (hans : Delivers ans) {ihl : Nat}
    (h : Aggregate4 entry g d v ihl l4Len) (hlen : d.length < 65536) (r : In6 × In6) :
    List.Forall₂ Alike (wire device ans (entry.send g d v ihl l4Len r)) (packets4 entry g d v ihl l4Len r) := by
  have hturn : SendsInTurn ans _ _ := send_inTurn h hlen r
  rw [← hturn.hall fun packet _ => hans none packet]
  exact hdev.wire_alike (send_handed h hlen r)

/-- The packets of an aggregate to IPv4, as a device sends them. -/
private theorem wire_send6 (hdev : Offloads device) (hans : Delivers ans) (hvnet : 0 < g.vnetHdrSz)
    (h : Aggregate6 entry d v l4Len) (r : In4 × In4) :
    List.Forall₂ Alike (wire device ans (entry.send6 g d v l4Len r)) (packets6 entry g ans d v l4Len r) := by
  rw [← (send6_inTurn hvnet h r).hall fun packet _ => hans none packet]
  exact hdev.wire_alike (send6_handed h r)

end Translated

/-- **Segments are lossless and well-formed**, whether a device cuts them or the software emitters: what goes out for an
aggregate that is translated are the segments of its payload, in order, between its mapped addresses.  To IPv4 they have
DF clear up to 1260 bytes and these are numbered one after the other. -/
theorem segments_lossless (device : Device) (hdev : Offloads device) (entry : GsoEntry) (g : Gcfg)
    (ans : (op : PktOp) → op.Ans) (hans : Delivers ans) (hvnet : 0 < g.vnetHdrSz) (hmtu : mtuMin ≤ g.mtu)
    (hmax : g.mtu < 65536) :
    (∀ d v ihl l4Len, Aggregate4 entry g d v ihl l4Len → d.length < 65536 →
      (∃ packet ∈ wire device ans (entry.run g d (some v)), version packet ≠ 4) → ∃ r : In6 × In6,
      ans (.mapIp4ToIp6 (Ip4.ofBytes d).src) = .ok r.1 ∧ ans (.mapIp4ToIp6 (Ip4.ofBytes d).dest) = .ok r.2 ∧
      Lossless (Segment6 entry d ihl l4Len r) (40 + l4Len) v.gsoSize.toNat (d.drop (ihl + l4Len))
        (wire device ans (entry.run g d (some v)))) ∧
    ∀ d v l4Len, Aggregate6 entry d v l4Len →
      (∃ packet ∈ wire device ans (entry.run6 g d (some v)), version packet = 4) → ∃ r : In4 × In4,
      ans (.mapIp6ToIp4 (Ip6.ofBytes d).src true) = .ok r.1 ∧ ans (.mapIp6ToIp4 (Ip6.ofBytes d).dest false) = .ok r.2 ∧
      Lossless (Segment4 entry d l4Len r) (20 + l4Len) v.gsoSize.toNat (d.drop (40 + l4Len))
        (wire device ans (entry.run6 g d (some v))) ∧ Numbered ans (wire device ans (entry.run6 g d (some v))) := by
  constructor
  · intro d v ihl l4Len h hlen hout
    obtain ⟨r, hsrc, hdst, hwire⟩ := entry_translated hdev h hmtu hout
    rw [hwire]
    exact ⟨r, hsrc, hdst, lossless4 h hlen (wire_send4 hdev hans h hlen r)⟩
  · intro d v l4Len h hout
    obtain ⟨r, hsrc, hdst, hsize, hwire⟩ := entry6_translated hdev h hmtu hmax hout
    rw [hwire]
    exact ⟨r, hsrc, hdst, lossless6 h (by omega) (wire_send6 hdev hans hvnet h r)⟩

/-- Two datagrams of eight bytes from IPv4. -/
def udpSegments4 : List Byte := optionsDatagram 16 0x4b7b

/-- The virtio header of these. -/
def udpGso4 : VnetHdr := ⟨1, vnetGsoUdpL4, 32, 8, 24, 6, 0⟩

private theorem udpSegments4_aggregate : Aggregate4 .udpSoftware usoGcfg udpSegments4 udpGso4 24 8 :=
  ⟨by decide +kernel, by decide +kernel, by decide +kernel, by decide +kernel, by decide +kernel, by decide +kernel,
    by decide +kernel⟩

/-- The first aggregate is cut in software, and the device cuts the other two. -/
theorem segments_lossless_pair :
    (∃ r : In6 × In6, Lossless (Segment6 .udpSoftware udpSegments4 24 8 r) (40 + 8) 8 (List.replicate 16 0)
      (wire kernelDevice frameAns (GsoEntry.udpSoftware.run usoGcfg udpSegments4 (some udpGso4)))) ∧
    (∃ r : In6 × In6, Lossless (Segment6 .udp df0Aggregate 20 8 r) (40 + 8) 1248 (List.replicate 1416 0)
      (wire kernelDevice frameAns (GsoEntry.udp.run usoGcfg df0Aggregate (some df0UdpGso)))) ∧
    (∃ r : In4 × In4, Lossless (Segment4 .udp udpSegments6 8 r) (20 + 8) 8 (List.replicate 16 0)
      (wire kernelDevice frameAns (GsoEntry.udp.run6 usoGcfg udpSegments6 (some udpGso6)))) ∧
    (sent frameAns (GsoEntry.udp.run6 usoGcfg udpSegments6 (some udpGso6))).length = 1 ∧
    (wire kernelDevice frameAns (GsoEntry.udp.run6 usoGcfg udpSegments6 (some udpGso6))).map ident =
      [0xb00b, 0xb00c] :=
  have h := fun entry => segments_lossless kernelDevice kernelDevice_offloads entry usoGcfg frameAns frameAns_delivers
    (by decide) (by decide) (by decide)
  ⟨((h .udpSoftware).1 _ _ _ _ udpSegments4_aggregate (by decide +kernel) (by decide +kernel)).imp fun _ h => h.2.2,
    ((h .udp).1 _ _ _ _ df0Aggregate_aggregate (by decide +kernel) (by decide +kernel)).imp fun _ h => h.2.2,
    ((h .udp).2 _ _ _ udpSegments6_aggregate (by decide +kernel)).imp fun _ h => h.2.2.1, by decide +kernel,
    by decide +kernel⟩

/-! ### The software emitters -/

/-- An emitter sends the aggregate on: it is well-formed, forwardable and passes the size test. -/
structure GsoEntry.Forwards (entry : GsoEntry) (g : Gcfg) (ans : (op : PktOp) → op.Ans) (d : List Byte) (v : VnetHdr)
    (ihl l4Len : Nat) : Prop where
  hagg : Aggregate4 entry g d v ihl l4Len
  hforward : Forwardable g ans (Ip4.ofBytes d)
  hfits : (Ip4.ofBytes d).flagsOffset &&& ip4FDf ≠ 0 → ¬entry.TooBig g (Ip4.ofBytes d) ihl (largestL4 d v ihl l4Len)

/-- The same to IPv4. -/
structure GsoEntry.Forwards6 (entry : GsoEntry) (g : Gcfg) (ans : (op : PktOp) → op.Ans) (d : List Byte) (v : VnetHdr)
    (l4Len : Nat) : Prop where
  hagg : Aggregate6 entry d v l4Len
  hforward : Forwardable6 g ans (Ip6.ofBytes d)
  hfits : 40 + largestL4 d v 40 l4Len ≤ g.mtu

section Emitters

private theorem gsoMap6to4WithIcmp_answer {p : Pkt6} (hdest : p.ip6.dest ≠ g.localAddr6)
    (hmapped : Mapped6 ans p.ip6.dest false ∧ Mapped6 ans p.ip6.src true) :
    ∃ r, (gsoMap6to4WithIcmp g p).answer ans = .ok r := by
  obtain ⟨⟨dst4, hdst⟩, src4, hsrc⟩ := hmapped
  refine ⟨(src4, dst4), ?_⟩
  unfold gsoMap6to4WithIcmp
  rw [if_neg hdest, answer_call, hdst]
  dsimp only
  rw [answer_call, hsrc]
  rfl

/-- Every check is passed, and both addresses are mapped. -/
theorem GsoEntry.Forwards.run (h : entry.Forwards g ans d v ihl l4Len) (hmtu : mtuMin ≤ g.mtu) (device : Device) :
    ∃ r : In6 × In6,
      ans (.mapIp4ToIp6 (Ip4.ofBytes d).src) = .ok r.1 ∧ ans (.mapIp4ToIp6 (Ip4.ofBytes d).dest) = .ok r.2 ∧
      wire device ans (entry.run g d (some v)) = wire device ans (entry.send g d v ihl l4Len r) ∧
      (entry.run g d (some v)).answer ans = (entry.send g d v ihl l4Len r).answer ans := by
  obtain ⟨hagg, hforward, hfits⟩ := h
  obtain ⟨hvalid, -⟩ := gsoValidateIpv4Header_valid hagg.hip4
  have hmap := gsoMap4to6WithIcmp_answer g ans (gsoPkt4 d v ihl entry.proto)
  rw [gsoPkt4_ip4 hvalid] at hmap
  obtain ⟨r, hr⟩ := hmap.2 ⟨hforward.hdest, hforward.hmapped⟩
  have hok := gsoMap4to6WithIcmp_ok device hr
  rw [gsoPkt4_ip4 hvalid] at hok
  obtain ⟨hnil, hsrc, hdst⟩ := hok
  rw [entry_program hagg hmtu, checked4, gsoPkt4_ip4 hvalid, if_neg fun h => hfits h.1 h.2, if_neg hforward.ttl,
    wire_bind, answer_bind, hnil, hr]
  exact ⟨r, hsrc, hdst, rfl, rfl⟩

theorem GsoEntry.Forwards6.run (h : entry.Forwards6 g ans d v l4Len) (hmtu : mtuMin ≤ g.mtu) (hmax : g.mtu < 65536)
    (device : Device) : ∃ r : In4 × In4,
      ans (.mapIp6ToIp4 (Ip6.ofBytes d).src true) = .ok r.1 ∧ ans (.mapIp6ToIp4 (Ip6.ofBytes d).dest false) = .ok r.2 ∧
      wire device ans (entry.run6 g d (some v)) = wire device ans (entry.send6 g d v l4Len r) ∧
      (entry.run6 g d (some v)).answer ans = (entry.send6 g d v l4Len r).answer ans := by
  obtain ⟨hagg, hforward, hfits⟩ := h
  have hip6 : (gsoPkt6 d v entry.proto).ip6 = Ip6.ofBytes d := gsoPkt6_ip6 hagg.length
  have hmap : ∃ r, (gsoMap6to4WithIcmp g (gsoPkt6 d v entry.proto)).answer ans = .ok r :=
    gsoMap6to4WithIcmp_answer (by rw [hip6]; exact hforward.hdest) (by rw [hip6]; exact hforward.hmapped)
  obtain ⟨r, hr⟩ := hmap
  have hok := gsoMap6to4WithIcmp_ok device hr
  rw [hip6] at hok
  obtain ⟨hnil, hsrc, hdst⟩ := hok
  have hbig : ¬entry.TooBig6 g (Ip6.ofBytes d) (largestL4 d v 40 l4Len) := fun h => h.exceeds.not_ge hfits
  have hhops : ¬(Ip6.ofBytes d).hopLimit ≤ 1 := by
    rw [ttl_le_one, not_or]
    exact hforward.hhops
  rw [entry6_program hagg hmtu hmax, checked6, hip6, if_neg hbig, if_neg hhops, wire_bind, answer_bind, hnil, hr]
  exact ⟨r, hsrc, hdst, rfl, rfl⟩

/-- The loop reports success if every segment goes out. -/
private theorem segmentLoop_answer {build : SegmentBuilder} {gsoSize n offset : Nat} {nextId : BitVec 16}
    {payload : List Byte} (hans : Delivers ans) (hs : 0 < gsoSize) (hn : payload.length < n)
    (hcount : (wire onWire ans (segmentLoop gsoSize build n offset nextId payload)).length =
      (Cut.cut gsoSize offset payload).length) :
    (segmentLoop gsoSize build n offset nextId payload).answer ans = true := by
  induction n generalizing offset nextId payload with
  | zero => omega
  | succ n ih =>
    unfold segmentLoop at hcount ⊢
    dsimp only at hcount ⊢
    by_cases hle : payload.length ≤ gsoSize
    · rw [cut_of_le offset hle] at hcount
      rw [List.drop_eq_nil_of_le hle, List.isEmpty_nil] at hcount ⊢
      cases hr : build offset true nextId (payload.take gsoSize) with
      | none =>
        rw [hr] at hcount
        cases hcount
      | some r =>
        dsimp only
        rw [answer_call, if_neg (Int.not_le.2 (hans none r.1)), if_pos rfl]
        rfl
    · have hlt : gsoSize < payload.length := Nat.lt_of_not_le hle
      have hnonempty : (payload.drop gsoSize).isEmpty = false := by
        rw [List.isEmpty_eq_false_iff, ne_eq, List.drop_eq_nil_iff]
        omega
      have hlen : (payload.drop gsoSize).length < n := by
        rw [List.length_drop]
        omega
      rw [cut_of_lt hs offset hlt, List.length_cons] at hcount
      rw [hnonempty, List.length_take_of_le hlt.le] at hcount ⊢
      cases hr : build offset false nextId (payload.take gsoSize) with
      | none =>
        rw [hr] at hcount
        cases hcount
      | some r =>
        have hsent : ¬(ans (.write none r.1) : Int) ≤ 0 := Int.not_le.2 (hans none r.1)
        rw [hr] at hcount
        have hwrite : wire onWire ans (.call (.write none r.1) fun ret : Int =>
            if ret ≤ 0 then .done false else if false = true then .done true
            else segmentLoop gsoSize build n (offset + gsoSize) r.2 (payload.drop gsoSize)) =
            r.1 :: wire onWire ans (segmentLoop gsoSize build n (offset + gsoSize) r.2 (payload.drop gsoSize)) :=
          congrArg (r.1 :: ·) (congrArg (wire onWire ans) (if_neg hsent))
        dsimp only
        rw [answer_call, if_neg hsent, if_neg Bool.false_ne_true]
        exact ih hlen (Nat.succ.inj ((congrArg List.length hwrite).symm.trans hcount))

private theorem software_answer {build : SegmentBuilder} {gsoSize : Nat} {count : BitVec 16} {payload : List Byte}
    (hans : Delivers ans) (hs : 0 < gsoSize)
    (hcount : (wire onWire ans (reserveSegments count >>= fun nextId =>
      segmentLoop gsoSize build (payload.length + 1) 0 nextId payload)).length = (Cut.cut gsoSize 0 payload).length) :
    (reserveSegments count >>= fun nextId =>
      segmentLoop gsoSize build (payload.length + 1) 0 nextId payload).answer ans = true := by
  have hquiet : wire onWire ans (reserveSegments count) = [] := by
    unfold reserveSegments
    split <;> rfl
  rw [wire_bind, hquiet, List.nil_append] at hcount
  rw [answer_bind]
  exact segmentLoop_answer hans hs (Nat.lt_succ_self _) hcount

/-- **An emitter to IPv6** that sends an aggregate on. -/
theorem software_lossless4 (hans : Delivers ans) (hentry : entry = .tcpSoftware ∨ entry = .udpSoftware)
    (h : Aggregate4 entry g d v ihl l4Len) (hlen : d.length < 65536) (r : In6 × In6) :
    (entry.send g d v ihl l4Len r).answer ans = true ∧
    Lossless (Segment6 entry d ihl l4Len r) (40 + l4Len) v.gsoSize.toNat (d.drop (ihl + l4Len))
      (wire onWire ans (entry.send g d v ihl l4Len r)) := by
  have hpos := gsoSize_pos h.hheader
  have hwire : wire onWire ans (entry.send g d v ihl l4Len r) = packets4 entry g d v ihl l4Len r :=
    (send_inTurn h hlen r).hall fun packet _ => hans none packet
  have halike : List.Forall₂ Alike (wire onWire ans (entry.send g d v ihl l4Len r))
      (packets4 entry g d v ihl l4Len r) := by
    rw [hwire]
    exact List.forall₂_same.2 fun out _ => .refl out
  have hlossless := lossless4 h hlen halike
  have hcount : (wire onWire ans (entry.send g d v ihl l4Len r)).length =
      (Cut.cut v.gsoSize.toNat 0 ((gsoPkt4 d v ihl entry.proto).data.drop l4Len)).length := by
    rw [hlossless.hcount, length_cut hpos, ← List.drop_drop]
    rfl
  refine ⟨?_, hlossless⟩
  rcases hentry with rfl | rfl
  · exact segmentLoop_answer hans hpos (Nat.lt_succ_self _) hcount
  · exact segmentLoop_answer hans hpos (Nat.lt_succ_self _) hcount

/-- **An emitter to IPv4** that sends an aggregate on. -/
theorem software_lossless6 (hans : Delivers ans) (hentry : entry = .tcpSoftware ∨ entry = .udpSoftware)
    (h : Aggregate6 entry d v l4Len) (hfit : 20 + largestL4 d v 40 l4Len ≤ 65535) (r : In4 × In4) :
    (entry.send6 g d v l4Len r).answer ans = true ∧
    Lossless (Segment4 entry d l4Len r) (20 + l4Len) v.gsoSize.toNat (d.drop (40 + l4Len))
      (wire onWire ans (entry.send6 g d v l4Len r)) ∧ Numbered ans (wire onWire ans (entry.send6 g d v l4Len r)) := by
  have hpos := gsoSize_pos h.hheader
  have hturn : SendsInTurn ans (entry.send6 g d v l4Len r) (packets6 entry g ans d v l4Len r) := by
    rcases hentry with rfl | rfl
    · exact software_inTurn hpos
    · have hl4 : UdpAggregate d v 40 l4Len := h.hl4
      obtain rfl := hl4.hl4
      exact software_inTurn hpos
  have halike : List.Forall₂ Alike (wire onWire ans (entry.send6 g d v l4Len r))
      (packets6 entry g ans d v l4Len r) := by
    rw [hturn.hall fun packet _ => hans none packet]
    exact List.forall₂_same.2 fun out _ => .refl out
  have hlossless := lossless6 h hfit halike
  have hcount : (wire onWire ans (entry.send6 g d v l4Len r)).length =
      (Cut.cut v.gsoSize.toNat 0 ((gsoPkt6 d v entry.proto).data.drop l4Len)).length := by
    rw [hlossless.1.hcount, length_cut hpos, ← List.drop_drop]
    rfl
  refine ⟨?_, hlossless⟩
  rcases hentry with rfl | rfl
  · exact software_answer hans hpos hcount
  · exact software_answer hans hpos hcount

end Emitters

/-- **The software emitters lose nothing**: whatever aggregate they send on, they come to its end, and what they write
are the segments of its payload, in order, between its mapped addresses.  To IPv4 they have DF clear up to 1260 bytes
and these are numbered one after the other. -/
theorem emitters_lossless (entry : GsoEntry) (hentry : entry = .tcpSoftware ∨ entry = .udpSoftware) (g : Gcfg)
    (ans : (op : PktOp) → op.Ans) (hans : Delivers ans) (hmtu : mtuMin ≤ g.mtu) (hmax : g.mtu < 65536) :
    (∀ d v ihl l4Len, entry.Forwards g ans d v ihl l4Len → d.length < 65536 →
      (entry.run g d (some v)).answer ans = true ∧ ∃ r : In6 × In6,
      ans (.mapIp4ToIp6 (Ip4.ofBytes d).src) = .ok r.1 ∧ ans (.mapIp4ToIp6 (Ip4.ofBytes d).dest) = .ok r.2 ∧
      Lossless (Segment6 entry d ihl l4Len r) (40 + l4Len) v.gsoSize.toNat (d.drop (ihl + l4Len))
        (written ans (entry.run g d (some v)))) ∧
    ∀ d v l4Len, entry.Forwards6 g ans d v l4Len →
      (entry.run6 g d (some v)).answer ans = true ∧ ∃ r : In4 × In4,
      ans (.mapIp6ToIp4 (Ip6.ofBytes d).src true) = .ok r.1 ∧ ans (.mapIp6ToIp4 (Ip6.ofBytes d).dest false) = .ok r.2 ∧
      Lossless (Segment4 entry d l4Len r) (20 + l4Len) v.gsoSize.toNat (d.drop (40 + l4Len))
        (written ans (entry.run6 g d (some v))) ∧ Numbered ans (written ans (entry.run6 g d (some v))) := by
  have hsame : entry.software = entry := by
    rcases hentry with rfl | rfl <;> rfl
  constructor
  · intro d v ihl l4Len h hlen
    obtain ⟨r, hsrc, hdst, hwire, hanswer⟩ := h.run hmtu onWire
    obtain ⟨htrue, hlossless⟩ := software_lossless4 hans hentry h.hagg hlen r
    have hwritten := written_run4 ans hmtu h.hagg
    rw [hsame] at hwritten
    rw [hwritten, hanswer, hwire]
    exact ⟨htrue, r, hsrc, hdst, hlossless⟩
  · intro d v l4Len h
    obtain ⟨r, hsrc, hdst, hwire, hanswer⟩ := h.run hmtu hmax onWire
    have hfits := h.hfits
    obtain ⟨htrue, hlossless⟩ := software_lossless6 (g := g) hans hentry h.hagg (by omega) r
    have hwritten := written_run6 ans hmtu hmax h.hagg
    rw [hsame] at hwritten
    rw [hwritten, hanswer, hwire]
    exact ⟨htrue, r, hsrc, hdst, hlossless⟩

private theorem udpSegments4_forwards : GsoEntry.udpSoftware.Forwards usoGcfg frameAns udpSegments4 udpGso4 24 8 :=
  ⟨udpSegments4_aggregate, ⟨by decide +kernel, by decide +kernel, ⟨_, rfl⟩, ⟨_, rfl⟩⟩,
    fun _ => by decide +kernel⟩

private theorem tcpAggregate6_forwards : GsoEntry.tcpSoftware.Forwards6 vnetGcfg frameAns tcpAggregate6 tcpGso6 20 :=
  ⟨⟨by decide +kernel, by decide +kernel, by decide +kernel, by decide +kernel, by decide +kernel, by decide +kernel,
    by decide +kernel, fun _ => by decide +kernel⟩, ⟨by decide +kernel, by decide +kernel, ⟨_, rfl⟩, ⟨_, rfl⟩⟩,
    by decide +kernel⟩

theorem emitters_lossless_pair :
    (∃ r : In6 × In6, Lossless (Segment6 .udpSoftware udpSegments4 24 8 r) (40 + 8) 8 (List.replicate 16 0)
      (written frameAns (GsoEntry.udpSoftware.run usoGcfg udpSegments4 (some udpGso4)))) ∧
    (∃ r : In4 × In4, Lossless (Segment4 .tcpSoftware tcpAggregate6 20 r) (20 + 20) 1300 (List.replicate 1400 0)
      (written frameAns (GsoEntry.tcpSoftware.run6 vnetGcfg tcpAggregate6 (some tcpGso6)))) ∧
    Numbered frameAns (written frameAns (GsoEntry.tcpSoftware.run6 vnetGcfg tcpAggregate6 (some tcpGso6))) :=
  have hudp := (emitters_lossless .udpSoftware (.inr rfl) usoGcfg frameAns frameAns_delivers (by decide)
    (by decide)).1 _ _ _ _ udpSegments4_forwards (by decide +kernel)
  have htcp := (emitters_lossless .tcpSoftware (.inl rfl) vnetGcfg frameAns frameAns_delivers (by decide)
    (by decide)).2 _ _ _ tcpAggregate6_forwards
  ⟨hudp.2.imp fun _ h => h.2.2, htcp.2.imp fun _ h => h.2.2.1, htcp.2.elim fun _ h => h.2.2.2⟩

end Tayga
