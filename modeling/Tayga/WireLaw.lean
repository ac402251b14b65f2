import Tayga.SizeLaw

/-!
# Aggregates as they are, and cut in software

The two ways an aggregate can take are the same on the wire: what the device cuts from the packet that
`gso_translate_*` hands over is what `gso_software_segment_and_send_*` writes, byte for byte (`wire_agrees`).  A TCP
aggregate to IPv4 may be handed over in two parts, full segments with DF set and a tail with DF clear.
-/

namespace Tayga

open Program OnesComplement Cut

variable {g : Gcfg} {d : List Byte} {v : VnetHdr} {ans : (op : PktOp) → op.Ans}

/-! ### What goes out -/

/-- The program sends the packets one after the other, all of them unless a write fails. -/
structure SendsInTurn (ans : (op : PktOp) → op.Ans) (prog : PktProg Bool) (packets : List (List Byte)) : Prop where
  hfront : wire onWire ans prog <+: packets
  hall : (∀ packet ∈ packets, (0 : Int) < ans (.write none packet)) → wire onWire ans prog = packets

theorem SendsInTurn.of_eq {prog : PktProg Bool} {packets : List (List Byte)} (h : wire onWire ans prog = packets) :
    SendsInTurn ans prog packets := ⟨h ▸ List.prefix_rfl, fun _ => h⟩

/-- Nothing goes out for a program in front. -/
theorem SendsInTurn.call {op : PktOp} {next : op.Ans → PktProg Bool} {packets : List (List Byte)}
    (hop : op.output = none) (h : SendsInTurn ans (next (ans op)) packets) :
    SendsInTurn ans (.call op next) packets := by
  have hnone : wire onWire ans (.call op next) = wire onWire ans (next (ans op)) := by
    cases op with
    | write vhdr packet => cases hop
    | _ => rfl
  exact ⟨hnone ▸ h.hfront, fun hans => hnone.trans (h.hall hans)⟩

/-- One packet of a loop. -/
theorem SendsInTurn.write {packet : List Byte} {next : PktProg Bool} {packets : List (List Byte)}
    (h : SendsInTurn ans next packets) : SendsInTurn ans
      (.call (.write none packet) fun ret => if ret ≤ 0 then .done false else next) (packet :: packets) := by
  have hwrite : wire onWire ans (.call (.write none packet) fun ret => if ret ≤ 0 then .done false else next) =
      packet :: wire onWire ans (if ans (.write none packet) ≤ 0 then .done false else next) := rfl
  by_cases hret : ans (.write none packet) ≤ 0
  · rw [if_pos hret] at hwrite
    refine ⟨hwrite ▸ List.cons_prefix_cons.2 ⟨rfl, List.nil_prefix⟩, fun hans => ?_⟩
    exact absurd (hans packet List.mem_cons_self) (Int.not_lt.2 hret)
  · rw [if_neg hret] at hwrite
    refine ⟨hwrite ▸ List.cons_prefix_cons.2 ⟨rfl, h.hfront⟩, fun hans => ?_⟩
    rw [hwrite, h.hall fun packet hmem => hans packet (List.mem_cons_of_mem _ hmem)]

/-- **The loop of the software emitters** sends the packets of the pieces. -/
theorem segmentLoop_inTurn {gsoSize n offset : Nat} {build : SegmentBuilder} {nextId : BitVec 16}
    {payload : List Byte} (hs : 0 < gsoSize) (hn : payload.length < n) :
    SendsInTurn ans (segmentLoop gsoSize build n offset nextId payload)
      (segmentPackets build nextId (Cut.cut gsoSize offset payload)) := by
  induction n generalizing offset nextId payload with
  | zero => omega
  | succ n ih =>
    unfold segmentLoop
    dsimp only
    by_cases hle : payload.length ≤ gsoSize
    · -- the last piece
      rw [List.drop_eq_nil_of_le hle, List.take_of_length_le hle, List.isEmpty_nil, cut_of_le offset hle,
        segmentPackets]
      dsimp only
      cases build offset true nextId payload with
      | none => exact .of_eq rfl
      | some r => exact .write (.of_eq rfl)
    · have hlt : gsoSize < payload.length := Nat.lt_of_not_le hle
      have hrest : (payload.drop gsoSize).isEmpty = false := by
        rw [List.isEmpty_eq_false_iff, ne_eq, List.drop_eq_nil_iff]
        omega
      rw [hrest, List.length_take, Nat.min_eq_left hlt.le, cut_of_lt hs offset hlt, segmentPackets]
      dsimp only
      cases build offset false nextId (payload.take gsoSize) with
      | none => exact .of_eq rfl
      | some r =>
        refine .write ?_
        rw [if_neg Bool.false_ne_true]
        exact ih (by rw [List.length_drop]; omega)

/-- The segments of a builder that numbers them like the device: `f` is the identification it writes, `next` the next
one. -/
private theorem segmentPackets_numbered {build : SegmentBuilder} {segment : BitVec 16 → Piece Byte → List Byte}
    {step : BitVec 16} (f next : BitVec 16 → BitVec 16) (hnext : ∀ ident, f (next ident) = f ident + step)
    {pieces : List (Piece Byte)} (hbuild : ∀ s ∈ pieces, ∀ ident,
      build s.offset s.last ident s.data = some (segment (f ident) s, next ident)) (ident : BitVec 16) :
    segmentPackets build ident pieces = numberedSegments segment step (f ident) pieces := by
  induction pieces generalizing ident with
  | nil => rfl
  | cons s rest ih =>
    obtain ⟨hs, hrest⟩ := List.forall_mem_cons.1 hbuild
    rw [segmentPackets, hs, numberedSegments, ← hnext]
    exact congrArg _ (ih hrest _)

/-! ### Segments -/

section Segments

variable {e : Endian} {pseudo : ZMod 65535} {seed ck : BitVec 16} {total : Nat} {s : Piece Byte}

/-- The device's TCP segment is the emitter's. -/
private theorem tcpSegment_eq {tcp : TcpHdr} (htotal : total < 65536) (heven : tcp.toBytes.length % 2 = 0)
    (hseed : residue seed = pseudo + total)
    (hck : residue ck = -(scale e * (pseudo + (tcp.toBytes.length + s.data.length : Nat)))) :
    tcpSegment { tcp with cksum := seed } total s =
      { tcp.segment s.offset s.last with
        cksum := htons e (segmentCksum e (tcp.segment s.offset s.last).toBytes s.data ck) }.toBytes ++ s.data := by
  have hflags : ∀ x y : Byte, (if s.offset = 0 then x else y) = if 0 < s.offset then y else x := fun x y => by
    by_cases h : s.offset = 0
    · rw [if_pos h, if_neg (by omega)]
    · rw [if_neg h, if_pos (by omega)]
  have hlen : (tcp.segment s.offset s.last).toBytes.length = tcp.toBytes.length := by
    rw [length_tcp, length_tcp]
    rfl
  have hne : (tcp.segment s.offset s.last).toBytes ++ s.data ≠ [] := fun h => by
    have := congrArg List.length h
    rw [List.length_append, length_tcp, List.length_nil] at this
    omega
  rw [← hlen, ← List.length_append] at hck
  have hsum := segmentSum_eq htotal (hlen ▸ heven) hne hseed hck
  unfold tcpSegment
  dsimp only
  rw [hflags, ← hsum]
  rfl

private theorem htons_nonzeroCksum (e : Endian) (x : BitVec 16) :
    htons e (nonzeroCksum x) = nonzeroCksum (htons e x) := by
  unfold nonzeroCksum
  by_cases h : x = 0
  · rw [if_pos h, if_pos (htons_ne_zero.2 h), htons_top]
  · rw [if_neg h, if_neg fun h' => h (htons_ne_zero.1 h')]

/-- The device's UDP datagram is the emitter's. -/
private theorem udpSegment_eq {udp : UdpHdr} (htotal : total < 65536) (hseed : residue seed = pseudo + total)
    (hck : residue ck = -(scale e * (pseudo + (8 + s.data.length : Nat)))) :
    udpSegment { udp with cksum := nonzeroCksum seed } total s =
      ({ srcPort := udp.srcPort, dstPort := udp.dstPort, length := BitVec.ofNat 16 (8 + s.data.length),
         cksum := htons e (nonzeroCksum (segmentCksum e (UdpHdr.toBytes ⟨udp.srcPort, udp.dstPort,
          BitVec.ofNat 16 (8 + s.data.length), 0⟩) s.data ck)) } : UdpHdr).toBytes ++ s.data := by
  generalize hu : (UdpHdr.mk udp.srcPort udp.dstPort (BitVec.ofNat 16 (8 + s.data.length)) 0) = u
  have hlen : (u.toBytes ++ s.data).length = 8 + s.data.length := by rw [List.length_append, length_udp]
  have hne : u.toBytes ++ s.data ≠ [] := fun h => by
    have := congrArg List.length h
    rw [hlen, List.length_nil] at this
    omega
  rw [← hlen] at hck
  have hsum := segmentSum_eq htotal (by rw [length_udp]) hne ((residue_nonzeroCksum seed).trans hseed) hck
  unfold udpSegment
  dsimp only
  rw [hu, hsum, htons_nonzeroCksum, ← hu]

end Segments

/-! ### To IPv6 -/

section To6

variable {entry : GsoEntry} {ihl l4Len : Nat} {e : Endian} {p : Pkt4} {src6 dst6 : In6}

/-- The builder of the segments from IPv4. -/
def builder4 (entry : GsoEntry) (e : Endian) (p : Pkt4) (l4Len : Nat) (r : In6 × In6) : SegmentBuilder :=
  match entry with
  | .tcp | .tcpSoftware => buildTcp4to6 e p (TcpHdr.ofBytes (p.data.take l4Len)) l4Len r.1 r.2
  | .udp | .udpSoftware => buildUdp4to6 e p (UdpHdr.ofBytes p.data) r.1 r.2

/-- The packets of an aggregate from IPv4, segment by segment. -/
def packets4 (entry : GsoEntry) (g : Gcfg) (d : List Byte) (v : VnetHdr) (ihl l4Len : Nat) (r : In6 × In6) :
    List (List Byte) :=
  let p := gsoPkt4 d v ihl entry.proto
  segmentPackets (builder4 entry g.endian p l4Len r) 0 (Cut.cut v.gsoSize.toNat 0 (p.data.drop l4Len))

/-- A header of IPv6 has no DF. -/
private theorem not_isDf0_ip6 {h : Ip6} {tc : Byte} (hv : h.verTcFl = verTc tc) (rest : List Byte) :
    ¬IsDf0 (h.toBytes ++ rest) := by
  rintro ⟨h4, -⟩
  rw [Ip6.version_toBytes hv] at h4
  exact absurd h4 (by decide)

/-- What a builder to IPv6 makes of the pieces. -/
private theorem segmentPackets_to6 {build : SegmentBuilder} {segment : BitVec 16 → Piece Byte → List Byte}
    {pieces : List (Piece Byte)} (hbuild : ∀ s ∈ pieces, ∀ ident ident', build s.offset s.last ident s.data =
      some (segment ident' s, ident)) (ident ident' : BitVec 16) :
    segmentPackets build ident pieces = numberedSegments segment 0 ident' pieces :=
  segmentPackets_numbered (fun _ => ident') id (fun _ => (BitVec.add_zero _).symm)
    (fun s hs ident => hbuild s hs ident ident') ident

private theorem pseudo6_add (src dest : In6) (len : Nat) (proto : Byte) :
    pseudo6 src dest len proto = pseudo6 src dest 0 proto + len := by
  unfold pseudo6
  push_cast
  ring

/-- The checksum of the pseudo-header of a segment. -/
private theorem residue_ip6Pseudo (e : Endian) {h : Ip6} {len : Nat} (hlen : len < 65536) (proto : Byte) :
    residue (ip6Checksum e h (BitVec.ofNat 32 len) proto) = -(scale e * (pseudo6 h.src h.dest 0 proto + len)) := by
  rw [residue_ip6Checksum, BitVec.toNat_ofNat, Nat.mod_eq_of_lt (by omega), ← pseudo6_add]

/-- The header of a segment in front of `len` bytes. -/
private theorem netSegment_gsoIp6 {tos hopLimit proto : Byte} {n len : Nat} (rest : List Byte) (ident : BitVec 16)
    {size : Nat} (hsize : size = 40 + len) :
    netSegment ((gsoIp6 tos hopLimit proto src6 dst6 n).toBytes ++ rest) ident size =
      (gsoIp6 tos hopLimit proto src6 dst6 len).toBytes := by
  rw [netSegment_ip6 rfl, hsize, Nat.add_sub_cancel_left]
  rfl

private theorem buildTcp4to6_eq {tcp : TcpHdr} {seed : BitVec 16} {total : Nat} (htotal : total < 65536)
    (hl4 : tcp.toBytes.length = l4Len) (heven : l4Len % 2 = 0)
    (hseed : residue seed = pseudo6 src6 dst6 total 6) {n : Nat} (rest : List Byte) {s : Piece Byte}
    (hfit : l4Len + s.data.length ≤ 65535) (ident ident' : BitVec 16) :
    buildTcp4to6 e p tcp l4Len src6 dst6 s.offset s.last ident s.data =
      some (netSegment ((gsoIp6 p.ip4.tos (p.ip4.ttl - 1) 6 src6 dst6 n).toBytes ++ rest) ident'
        (40 + l4Len + s.data.length) ++ tcpSegment { tcp with cksum := seed } total s, ident) := by
  have hck := residue_ip6Pseudo e (h := gsoIp6 p.ip4.tos (p.ip4.ttl - 1) 6 src6 dst6 (l4Len + s.data.length))
    (show l4Len + s.data.length < 65536 by omega) 6
  rw [pseudo6_add] at hseed
  rw [netSegment_gsoIp6 rest ident' (Nat.add_assoc 40 l4Len s.data.length),
    tcpSegment_eq htotal (by rwa [hl4]) hseed (by rwa [hl4])]
  unfold buildTcp4to6
  dsimp only
  rw [if_neg (by omega), List.append_assoc]

private theorem buildUdp4to6_eq {udp : UdpHdr} {seed : BitVec 16} {total : Nat} (htotal : total < 65536)
    (hseed : residue seed = pseudo6 src6 dst6 total 17) {n : Nat} (rest : List Byte) {s : Piece Byte}
    (hfit : 8 + s.data.length ≤ 65535) (ident ident' : BitVec 16) :
    buildUdp4to6 e p udp src6 dst6 s.offset s.last ident s.data =
      some (netSegment ((gsoIp6 p.ip4.tos (p.ip4.ttl - 1) 17 src6 dst6 n).toBytes ++ rest) ident'
        (40 + 8 + s.data.length) ++ udpSegment { udp with cksum := nonzeroCksum seed } total s, ident) := by
  have hck := residue_ip6Pseudo e (h := gsoIp6 p.ip4.tos (p.ip4.ttl - 1) 17 src6 dst6 (8 + s.data.length))
    (show 8 + s.data.length < 65536 by omega) 17
  rw [pseudo6_add] at hseed
  rw [netSegment_gsoIp6 rest ident' (Nat.add_assoc 40 8 s.data.length), udpSegment_eq htotal hseed hck]
  unfold buildUdp4to6
  dsimp only
  rw [if_neg (by omega), List.append_assoc]

/-- A TCP aggregate behind an IPv6 header is cut like its segments are built. -/
private theorem onWire_tcp6 (e : Endian) (p : Pkt4) {tcp : TcpHdr} {payload : List Byte} {w : VnetHdr} {t : Byte}
    {n l4 : Nat} (hl4 : l4 = (tcp.toBytes ++ payload).length) (hlt : l4 < 65536)
    (hdoff : 20 + tcp.options.length = (tcp.doffRes >>> 4).toNat * 4)
    (hw : TcpOffload w t 40 n payload.length) (src6 dst6 : In6) (ident : BitVec 16) :
    onWire (some w) ((gsoIp6 p.ip4.tos (p.ip4.ttl - 1) 6 src6 dst6 l4).toBytes ++
      ({ tcp with cksum := gsoCalcPseudo6 src6 dst6 6 (BitVec.ofNat 32 l4) }.toBytes ++ payload)) =
    segmentPackets (buildTcp4to6 e p tcp tcp.toBytes.length src6 dst6) ident (Cut.cut n 0 payload) := by
  have hseed : residue (gsoCalcPseudo6 src6 dst6 6 (BitVec.ofNat 32 l4)) = _ := residue_gsoCalcPseudo6 hlt
  generalize gsoCalcPseudo6 src6 dst6 6 (BitVec.ofNat 32 l4) = seed at *
  have hbytes : ({ tcp with cksum := seed } : TcpHdr).toBytes.length = tcp.toBytes.length := by
    rw [length_tcp, length_tcp]
  have htotal : (({ tcp with cksum := seed } : TcpHdr).toBytes ++ payload).length = l4 := by
    rw [List.length_append, hbytes, hl4, List.length_append]
  have hp : TcpPacket ((gsoIp6 p.ip4.tos (p.ip4.ttl - 1) 6 src6 dst6 l4).toBytes ++
      (({ tcp with cksum := seed } : TcpHdr).toBytes ++ payload)) _ { tcp with cksum := seed } payload :=
    ⟨rfl, netLen_ip6 rfl, (fields_behind6 rfl).1, hdoff⟩
  have hnet : ∀ ident, netSegment ((gsoIp6 p.ip4.tos (p.ip4.ttl - 1) 6 src6 dst6 l4).toBytes ++
      (({ tcp with cksum := seed } : TcpHdr).toBytes ++ payload)) ident (40 + l4) =
      (gsoIp6 p.ip4.tos (p.ip4.ttl - 1) 6 src6 dst6 l4).toBytes := fun ident => netSegment_gsoIp6 _ ident rfl
  have hdf := not_isDf0_ip6 (h := gsoIp6 p.ip4.tos (p.ip4.ttl - 1) 6 src6 dst6 l4) rfl
    (({ tcp with cksum := seed } : TcpHdr).toBytes ++ payload)
  generalize hpacket : (gsoIp6 p.ip4.tos (p.ip4.ttl - 1) 6 src6 dst6 l4).toBytes ++
    (({ tcp with cksum := seed } : TcpHdr).toBytes ++ payload) = packet at *
  have hlen : packet.length = 40 + l4 := by rw [← hpacket, List.length_append, length_ip6, htotal]
  rw [onWire_tcp hp hw (htotal ▸ hlt) (hlen ▸ hnet _), if_neg hdf, htotal, hbytes, length_ip6]
  refine (segmentPackets_to6 (fun s hs ident ident' => ?_) ident (Tayga.ident packet)).symm
  have hfit := length_data_le_length hs
  rw [List.length_append] at hl4
  rw [← hpacket]
  exact buildTcp4to6_eq hlt rfl (even_tcp hdoff) hseed _ (by omega) ident ident'

/-- **A TCP aggregate to IPv6.** -/
theorem tcp_wire4 (h : Aggregate4 .tcp g d v ihl l4Len) (hlen : d.length < 65536) (r : In6 × In6) :
    wire onWire ans (GsoEntry.send .tcp g d v ihl l4Len r) = packets4 .tcp g d v ihl l4Len r := by
  have htcp : TcpAggregate d v false ihl l4Len := h.hl4
  have hmin := htcp.hmin
  have hfit := htcp.hfit
  have hdata := length_gsoPkt4_data d v ihl 6
  unfold GsoEntry.send packets4 builder4
  dsimp only
  rw [show GsoEntry.tcp.proto = 6 from rfl]
  obtain ⟨hl4, hdoff⟩ := tcpHeader (gsoPkt4 d v ihl 6).data htcp.hl4 hmin (by omega)
  have hsplit := TcpHdr.toBytes_ofBytes_take (d := (gsoPkt4 d v ihl 6).data) hmin (by omega)
  obtain ⟨-, hw, -⟩ := tcp_packet6 h hlen r 0
  have hput := put_tcp (TcpHdr.ofBytes ((gsoPkt4 d v ihl 6).data.take l4Len)) ((gsoPkt4 d v ihl 6).data.drop l4Len)
  rw [hsplit] at hput
  rw [hput]
  have hwire := onWire_tcp6 g.endian (gsoPkt4 d v ihl 6) (congrArg List.length hsplit.symm) (by omega) hdoff hw r.1
    r.2 0
  rw [hl4] at hwire
  exact (List.append_nil _).trans hwire

/-- A UDP aggregate behind an IPv6 header is cut like its datagrams are built. -/
private theorem onWire_udp6 (e : Endian) (p : Pkt4) {udp : UdpHdr} {payload : List Byte} {w : VnetHdr} {n l4 : Nat}
    (hl4 : l4 = 8 + payload.length) (hlt : l4 < 65536) (hw : UdpOffload w 40 n) (src6 dst6 : In6)
    (ident : BitVec 16) :
    onWire (some w) ((gsoIp6 p.ip4.tos (p.ip4.ttl - 1) 17 src6 dst6 l4).toBytes ++
      ({ udp with cksum := nonzeroCksum (gsoCalcPseudo6 src6 dst6 17 (BitVec.ofNat 32 l4)) }.toBytes ++ payload)) =
    segmentPackets (buildUdp4to6 e p udp src6 dst6) ident (Cut.cut n 0 payload) := by
  have hseed : residue (gsoCalcPseudo6 src6 dst6 17 (BitVec.ofNat 32 l4)) = _ := residue_gsoCalcPseudo6 hlt
  generalize gsoCalcPseudo6 src6 dst6 17 (BitVec.ofNat 32 l4) = seed at *
  have htotal : (({ udp with cksum := nonzeroCksum seed } : UdpHdr).toBytes ++ payload).length = l4 := by
    rw [List.length_append, length_udp, hl4]
  have hp : UdpPacket ((gsoIp6 p.ip4.tos (p.ip4.ttl - 1) 17 src6 dst6 l4).toBytes ++
      (({ udp with cksum := nonzeroCksum seed } : UdpHdr).toBytes ++ payload)) _
      { udp with cksum := nonzeroCksum seed } payload := ⟨rfl, netLen_ip6 rfl, (fields_behind6 rfl).1⟩
  rw [onWire_udp hp hw, if_neg (not_isDf0_ip6 rfl _), htotal, length_ip6]
  refine (segmentPackets_to6 (fun s hs ident ident' => ?_) ident _).symm
  have hfit := length_data_le_length hs
  exact buildUdp4to6_eq hlt hseed _ (by omega) ident ident'

/-- **A UDP aggregate to IPv6**, with a device that cuts it. -/
theorem udp_wire4 (h : Aggregate4 .udp g d v ihl l4Len) (hlen : d.length < 65536)
    (hroute : ¬((!g.tunHasUso) = true ∨ ihl ≠ 20)) (r : In6 × In6) :
    wire onWire ans (GsoEntry.send .udp g d v ihl l4Len r) = packets4 .udp g d v ihl l4Len r := by
  obtain rfl := not_not.1 (not_or.1 hroute).2
  have hudp : UdpAggregate d v 20 l4Len := h.hl4
  obtain rfl := hudp.hl4
  have hfit := hudp.hfit
  have hdata := length_gsoPkt4_data d v 20 17
  have hpayload : (gsoPkt4 d v 20 17).data.length = 8 + ((gsoPkt4 d v 20 17).data.drop 8).length := by
    rw [List.length_drop]
    omega
  obtain ⟨-, hw, -⟩ := udp_packet6 h hlen r 0
  rw [show GsoEntry.send .udp g d v 20 8 r = _ from if_neg hroute]
  unfold packets4 builder4
  dsimp only
  rw [show GsoEntry.udp.proto = 17 from rfl, gsoUdpSeed_eq (by omega)]
  exact (List.append_nil _).trans (onWire_udp6 g.endian _ hpayload (by omega) hw r.1 r.2 0)

/-- **What an entry point sends** to IPv6. -/
theorem send_inTurn (h : Aggregate4 entry g d v ihl l4Len) (hlen : d.length < 65536) (r : In6 × In6) :
    SendsInTurn ans (entry.send g d v ihl l4Len r) (packets4 entry g d v ihl l4Len r) := by
  have hpos := gsoSize_pos h.hheader
  have hudp (hl4 : UdpAggregate d v ihl l4Len) : SendsInTurn ans (GsoEntry.send .udpSoftware g d v ihl l4Len r)
      (packets4 .udpSoftware g d v ihl l4Len r) := by
    obtain rfl := hl4.hl4
    exact segmentLoop_inTurn hpos (Nat.lt_succ_self _)
  cases entry with
  | tcp => exact .of_eq (tcp_wire4 h hlen r)
  | tcpSoftware => exact segmentLoop_inTurn hpos (Nat.lt_succ_self _)
  | udp =>
    by_cases hroute : (!g.tunHasUso) = true ∨ ihl ≠ 20
    · rw [send_udp_of_route hroute]
      exact hudp h.hl4
    · exact .of_eq (udp_wire4 h hlen hroute r)
  | udpSoftware => exact hudp h.hl4

/-- What an entry point sends to IPv6 goes out. -/
theorem send_handed (h : Aggregate4 entry g d v ihl l4Len) (hlen : d.length < 65536) (r : In6 × In6) :
    OnlySends Handed (entry.send g d v ihl l4Len r) := by
  have hsoftware : ∀ {gsoSize n offset : Nat} {build : SegmentBuilder} {nextId : BitVec 16} {payload : List Byte},
      OnlySends Handed (segmentLoop gsoSize build n offset nextId payload) :=
    segmentLoop_sends (fun _ _ _ _ _ _ => handed_none _) _ _ _ _
  cases entry with
  | tcp => exact ⟨(tcp_packet6 h hlen r _).2.2, fun _ => trivial⟩
  | tcpSoftware | udpSoftware => exact hsoftware
  | udp =>
    by_cases hroute : (!g.tunHasUso) = true ∨ ihl ≠ 20
    · rw [send_udp_of_route hroute]
      exact hsoftware
    · have hudp : UdpAggregate d v ihl l4Len := h.hl4
      obtain rfl := not_not.1 (not_or.1 hroute).2
      obtain rfl := hudp.hl4
      rw [show GsoEntry.send .udp g d v 20 8 r = _ from if_neg hroute]
      exact ⟨(udp_packet6 h hlen r _).2.2, fun _ => trivial⟩

end To6

/-! ### To IPv4 -/

section To4

variable {entry : GsoEntry} {l4Len : Nat} {e : Endian} {p : Pkt6} {src4 dst4 : In4} {tos ttl proto : Byte}
  {ident flags : BitVec 16}

private theorem pseudo4_add (src dest : In4) (len : Nat) (proto : Byte) :
    pseudo4 src dest len proto = pseudo4 src dest 0 proto + len := by
  unfold pseudo4
  push_cast
  ring

/-- The checksum of the pseudo-header of an IPv4 segment. -/
private theorem residue_ip4Pseudo (e : Endian) {h : Ip4} {len : Nat} (hlen : len < 65536) (proto : Byte) :
    residue (ip4Checksum e h (BitVec.ofNat 32 len) proto) = -(scale e * (pseudo4 h.src h.dest 0 proto + len)) := by
  rw [residue_ip4Checksum, BitVec.toNat_ofNat, Nat.mod_eq_of_lt (by omega), ← pseudo4_add]

/-- The IPv4 header of a segment, and the identification and DF of an aggregate. -/
private theorem gsoIp4_segment {n : Nat} (rest : List Byte) :
    (∀ ident' len, netSegment ((gsoIp4 e tos ttl proto ident flags src4 dst4 n).toBytes ++ rest) ident' len =
      (gsoIp4 e tos ttl proto ident' flags src4 dst4 len).toBytes) ∧
    Tayga.ident ((gsoIp4 e tos ttl proto ident flags src4 dst4 n).toBytes ++ rest) = ident ∧
    (IsDf0 ((gsoIp4 e tos ttl proto ident flags src4 dst4 n).toBytes ++ rest) ↔ flags &&& ip4FDf = 0) :=
  ⟨fun ident' len => netSegment_ip4 rfl rest ident' len, (fields_ip4 _ rest).1, isDf0_ip4 rfl rest⟩

/-- The segment of a TCP aggregate to IPv4. -/
def segmentTcp4 (e : Endian) (p : Pkt6) (tcp : TcpHdr) (flags : BitVec 16) (src4 dst4 : In4) (total : Nat)
    (ident : BitVec 16) (s : Piece Byte) : List Byte :=
  (gsoIp4 e p.ip6.tc (p.ip6.hopLimit - 1) 6 ident flags src4 dst4 (20 + tcp.toBytes.length + s.data.length)).toBytes ++
    tcpSegment { tcp with cksum := gsoCalcPseudo4 src4 dst4 6 (BitVec.ofNat 32 total) } total s

variable (e p src4 dst4 ident flags) in
/-- A TCP aggregate behind an IPv4 header. -/
private theorem onWire_tcp4 {tcp : TcpHdr} {payload : List Byte} {w : VnetHdr} {t : Byte} {n l4 : Nat}
    (hl4 : l4 = (tcp.toBytes ++ payload).length) (hlt : l4 < 65536)
    (hdoff : 20 + tcp.options.length = (tcp.doffRes >>> 4).toNat * 4) (hw : TcpOffload w t 20 n payload.length) :
    onWire (some w) ((gsoIp4 e p.ip6.tc (p.ip6.hopLimit - 1) 6 ident flags src4 dst4 (20 + l4)).toBytes ++
      ({ tcp with cksum := gsoCalcPseudo4 src4 dst4 6 (BitVec.ofNat 32 l4) }.toBytes ++ payload)) =
    numberedSegments (segmentTcp4 e p tcp flags src4 dst4 l4) (if flags &&& ip4FDf = 0 then 1 else 0) ident
      (Cut.cut n 0 payload) := by
  unfold segmentTcp4
  generalize gsoCalcPseudo4 src4 dst4 6 (BitVec.ofNat 32 l4) = seed
  have hbytes : ({ tcp with cksum := seed } : TcpHdr).toBytes.length = tcp.toBytes.length := by
    rw [length_tcp, length_tcp]
  have htotal : (({ tcp with cksum := seed } : TcpHdr).toBytes ++ payload).length = l4 := by
    rw [List.length_append, hbytes, hl4, List.length_append]
  obtain ⟨hnet, hident, hdf⟩ := gsoIp4_segment (e := e) (n := 20 + l4)
    (({ tcp with cksum := seed } : TcpHdr).toBytes ++ payload)
  have hlen : ((gsoIp4 e p.ip6.tc (p.ip6.hopLimit - 1) 6 ident flags src4 dst4 (20 + l4)).toBytes ++
      (({ tcp with cksum := seed } : TcpHdr).toBytes ++ payload)).length = 20 + l4 := by
    rw [List.length_append, length_ip4, htotal]
  have hp : TcpPacket ((gsoIp4 e p.ip6.tc (p.ip6.hopLimit - 1) 6 ident flags src4 dst4 (20 + l4)).toBytes ++
      (({ tcp with cksum := seed } : TcpHdr).toBytes ++ payload)) _ { tcp with cksum := seed } payload :=
    ⟨rfl, netLen_ip4 rfl, (fields_behind4 rfl).1, hdoff⟩
  rw [onWire_tcp hp hw (htotal ▸ hlt) (by rw [hlen, hident, hnet]), if_congr hdf rfl rfl, hident, htotal, hbytes,
    length_ip4]
  simp only [hnet]

/-- The segment of a UDP aggregate to IPv4. -/
def segmentUdp4 (e : Endian) (p : Pkt6) (udp : UdpHdr) (flags : BitVec 16) (src4 dst4 : In4) (total : Nat)
    (ident : BitVec 16) (s : Piece Byte) : List Byte :=
  (gsoIp4 e p.ip6.tc (p.ip6.hopLimit - 1) 17 ident flags src4 dst4 (20 + 8 + s.data.length)).toBytes ++
    udpSegment { udp with cksum := nonzeroCksum (gsoCalcPseudo4 src4 dst4 17 (BitVec.ofNat 32 total)) } total s

variable (e p src4 dst4 ident flags) in
/-- A UDP aggregate behind an IPv4 header. -/
private theorem onWire_udp4 {udp : UdpHdr} {payload : List Byte} {w : VnetHdr} {n l4 : Nat}
    (hl4 : l4 = 8 + payload.length) (hw : UdpOffload w 20 n) :
    onWire (some w) ((gsoIp4 e p.ip6.tc (p.ip6.hopLimit - 1) 17 ident flags src4 dst4 (20 + l4)).toBytes ++
      ({ udp with cksum := nonzeroCksum (gsoCalcPseudo4 src4 dst4 17 (BitVec.ofNat 32 l4)) }.toBytes ++ payload)) =
    numberedSegments (segmentUdp4 e p udp flags src4 dst4 l4) (if flags &&& ip4FDf = 0 then 1 else 0) ident
      (Cut.cut n 0 payload) := by
  unfold segmentUdp4
  generalize nonzeroCksum (gsoCalcPseudo4 src4 dst4 17 (BitVec.ofNat 32 l4)) = seed
  have htotal : (({ udp with cksum := seed } : UdpHdr).toBytes ++ payload).length = l4 := by
    rw [List.length_append, length_udp, hl4]
  obtain ⟨hnet, hident, hdf⟩ := gsoIp4_segment (e := e) (n := 20 + l4)
    (({ udp with cksum := seed } : UdpHdr).toBytes ++ payload)
  have hp : UdpPacket ((gsoIp4 e p.ip6.tc (p.ip6.hopLimit - 1) 17 ident flags src4 dst4 (20 + l4)).toBytes ++
      (({ udp with cksum := seed } : UdpHdr).toBytes ++ payload)) _ { udp with cksum := seed } payload :=
    ⟨rfl, netLen_ip4 rfl, (fields_behind4 rfl).1⟩
  rw [onWire_udp hp hw, if_congr hdf rfl rfl, hident, htotal, length_ip4]
  simp only [hnet]

variable (e p src4 dst4 ident flags) in
/-- A TCP packet behind an IPv4 header, as it is handed over. -/
private theorem handed_tcp4 {h : TcpHdr} {payload : List Byte} {w : VnetHdr} {n l4 : Nat}
    (hl4 : l4 = (h.toBytes ++ payload).length) (hfit : 20 + l4 < 65536)
    (hdoff : 20 + h.options.length = (h.doffRes >>> 4).toNat * 4) (hw : TcpOffload w vnetGsoTcpv4 20 n payload.length)
    (hn : 0 < n) (hhdrLen : w.hdrLen.toNat ≤ 20 + l4) :
    Handed (some w) ((gsoIp4 e p.ip6.tc (p.ip6.hopLimit - 1) 6 ident flags src4 dst4 (20 + l4)).toBytes ++
      (h.toBytes ++ payload)) := by
  generalize hip4 : gsoIp4 e p.ip6.tc (p.ip6.hopLimit - 1) 6 ident flags src4 dst4 (20 + l4) = ip4
  have hv : ip4.verIhl = 0x45 := by
    rw [← hip4]
    rfl
  have hlength : ip4.length.toNat = 20 + l4 := by
    rw [← hip4]
    exact (BitVec.toNat_ofNat _ _).trans (Nat.mod_eq_of_lt hfit)
  obtain ⟨hproto, hnet⟩ := @fields_behind4 ip4 hv (h.toBytes ++ payload)
  have hsix : transportProto (ip4.toBytes ++ (h.toBytes ++ payload)) = 6 := by
    rw [hproto, ← hip4]
    rfl
  have hp : TcpPacket (ip4.toBytes ++ (h.toBytes ++ payload)) _ h payload := ⟨rfl, netLen_ip4 hv, hsix, hdoff⟩
  refine handed_tcp hp hw (hnet (by rw [hlength, hl4])) ?_ hn ?_
  · rw [gsoTypeOf, hsix, Ip4.version_toBytes hv]
    rfl
  · rw [List.length_append, length_ip4, ← hl4]
    exact hhdrLen

variable (e p src4 dst4 ident flags) in
/-- A UDP aggregate behind an IPv4 header, as it is handed over. -/
private theorem handed_udp4 {h : UdpHdr} {payload : List Byte} {w : VnetHdr} {n l4 : Nat}
    (hl4 : l4 = 8 + payload.length)
    (hfit : 20 + l4 < 65536) (hw : UdpOffload w 20 n) (hn : 0 < n) (hhdrLen : w.hdrLen.toNat ≤ 20 + l4) :
    Handed (some w) ((gsoIp4 e p.ip6.tc (p.ip6.hopLimit - 1) 17 ident flags src4 dst4 (20 + l4)).toBytes ++
      (h.toBytes ++ payload)) := by
  generalize hip4 : gsoIp4 e p.ip6.tc (p.ip6.hopLimit - 1) 17 ident flags src4 dst4 (20 + l4) = ip4
  have hv : ip4.verIhl = 0x45 := by
    rw [← hip4]
    rfl
  have hlength : ip4.length.toNat = 20 + l4 := by
    rw [← hip4]
    exact (BitVec.toNat_ofNat _ _).trans (Nat.mod_eq_of_lt hfit)
  have hbytes : (h.toBytes ++ payload).length = l4 := by rw [List.length_append, length_udp, hl4]
  obtain ⟨hproto, hnet⟩ := @fields_behind4 ip4 hv (h.toBytes ++ payload)
  have hp : UdpPacket (ip4.toBytes ++ (h.toBytes ++ payload)) _ h payload := ⟨rfl, netLen_ip4 hv, by
    rw [hproto, ← hip4]
    rfl⟩
  refine handed_udp hp hw (hnet (by rw [hlength, hbytes])) hn ?_
  rw [List.length_append, length_ip4, hbytes]
  exact hhdrLen

/-- The builders to IPv4, against the segments of the device: `h` is the length of the headers, and a segment has its
flags and its identification. -/
def BuildsTo4 (build : SegmentBuilder) (h : Nat) (segment : BitVec 16 → BitVec 16 → Piece Byte → List Byte) : Prop :=
  ∀ (s : Piece Byte) (ident : BitVec 16), h + s.data.length ≤ 65535 → build s.offset s.last ident s.data =
    if h + s.data.length ≤ 1260 then some (segment 0 ident s, ident + 1) else some (segment ip4FDf 0 s, ident)

variable (e src4 dst4) in
/-- **A TCP segment to IPv4 is built like the device cuts it**, with DF clear up to 1260 bytes. -/
theorem buildTcp6to4_builds {tcp : TcpHdr} {total : Nat} (hproto : p.dataProto = 6) (htotal : total < 65536)
    (hdoff : 20 + tcp.options.length = (tcp.doffRes >>> 4).toNat * 4) :
    BuildsTo4 (buildTcp6to4 e p tcp tcp.toBytes.length src4 dst4) (20 + tcp.toBytes.length) fun flags =>
      segmentTcp4 e p tcp flags src4 dst4 total := by
  intro s ident hfit
  have hseed : residue (gsoCalcPseudo4 src4 dst4 6 (BitVec.ofNat 32 total)) = _ := residue_gsoCalcPseudo4 htotal
  rw [pseudo4_add] at hseed
  have hck : ∀ ident flags, residue (ip4Checksum e (gsoIp4 e p.ip6.tc (p.ip6.hopLimit - 1) 6 ident flags src4 dst4
      (20 + tcp.toBytes.length + s.data.length)) (BitVec.ofNat 32 (tcp.toBytes.length + s.data.length)) 6) =
      -(scale e * (pseudo4 src4 dst4 0 6 + (tcp.toBytes.length + s.data.length : Nat))) := fun _ _ =>
    residue_ip4Pseudo e (by omega) 6
  unfold buildTcp6to4 segmentTcp4 segmentIp4
  dsimp only
  rw [← Nat.add_assoc, if_neg (by omega), hproto]
  by_cases hshort : 20 + tcp.toBytes.length + s.data.length ≤ 1260
  · rw [if_pos hshort, if_pos hshort, List.append_assoc, tcpSegment_eq htotal (even_tcp hdoff) hseed (hck _ _)]
  · rw [if_neg hshort, if_neg hshort, List.append_assoc, tcpSegment_eq htotal (even_tcp hdoff) hseed (hck _ _)]

variable (e src4 dst4) in
private theorem buildUdp6to4_builds {udp : UdpHdr} {total : Nat} (hproto : p.dataProto = 17) (htotal : total < 65536) :
    BuildsTo4 (buildUdp6to4 e p udp src4 dst4) (20 + 8) fun flags => segmentUdp4 e p udp flags src4 dst4 total := by
  intro s ident hfit
  have hseed : residue (gsoCalcPseudo4 src4 dst4 17 (BitVec.ofNat 32 total)) = _ := residue_gsoCalcPseudo4 htotal
  rw [pseudo4_add] at hseed
  have hck : ∀ ident flags, residue (ip4Checksum e (gsoIp4 e p.ip6.tc (p.ip6.hopLimit - 1) 17 ident flags src4 dst4
      (20 + 8 + s.data.length)) (BitVec.ofNat 32 (8 + s.data.length)) 17) =
      -(scale e * (pseudo4 src4 dst4 0 17 + (8 + s.data.length : Nat))) := fun _ _ => residue_ip4Pseudo e (by omega) 17
  unfold buildUdp6to4 segmentUdp4 segmentIp4
  dsimp only
  rw [← Nat.add_assoc, if_neg (by omega), hproto]
  by_cases hshort : 20 + 8 + s.data.length ≤ 1260
  · rw [if_pos hshort, if_pos hshort, List.append_assoc, udpSegment_eq htotal hseed (hck _ _)]
  · rw [if_neg hshort, if_neg hshort, List.append_assoc, udpSegment_eq htotal hseed (hck _ _)]

section Builds

variable {build : SegmentBuilder} {h n : Nat} {segment : BitVec 16 → BitVec 16 → Piece Byte → List Byte}
  {pieces : List (Piece Byte)}

/-- Short segments have DF clear and are numbered. -/
theorem BuildsTo4.short (hb : BuildsTo4 build h segment) (hshort : ∀ s ∈ pieces, h + s.data.length ≤ 1260)
    (base : BitVec 16) : segmentPackets build base pieces = numberedSegments (segment 0) 1 base pieces :=
  segmentPackets_numbered id (· + 1) (fun _ => rfl)
    (fun s hs ident => (hb s ident (by have := hshort s hs; omega)).trans (if_pos (hshort s hs))) base

/-- Long segments have DF set and no identification. -/
private theorem BuildsTo4.long (hb : BuildsTo4 build h segment)
    (hlong : ∀ s ∈ pieces, 1260 < h + s.data.length ∧ h + s.data.length ≤ 65535) (base : BitVec 16) :
    segmentPackets build base pieces = numberedSegments (segment ip4FDf) 0 0 pieces :=
  segmentPackets_numbered (fun _ => 0) id (fun _ => rfl)
    (fun s hs ident => (hb s ident (hlong s hs).2).trans (if_neg (Nat.not_le.2 (hlong s hs).1))) base

/-- Long segments in front use none. -/
private theorem BuildsTo4.append_long (hb : BuildsTo4 build h segment)
    (hlong : ∀ s ∈ pieces, 1260 < h + s.data.length ∧ h + s.data.length ≤ 65535) (base : BitVec 16)
    (rest : List (Piece Byte)) : segmentPackets build base (pieces ++ rest) =
      segmentPackets build base pieces ++ segmentPackets build base rest := by
  induction pieces with
  | nil => rfl
  | cons s pieces ih =>
    obtain ⟨⟨hlt, hle⟩, hpieces⟩ := List.forall_mem_cons.1 hlong
    have hs := (hb s base hle).trans (if_neg (Nat.not_le.2 hlt))
    rw [List.cons_append, segmentPackets, segmentPackets, hs]
    exact congrArg _ (ih hpieces)

/-- The identification the segments begin with. -/
def firstIdent (ans : (op : PktOp) → op.Ans) (count : BitVec 16) : BitVec 16 :=
  if count = 0 then 0 else ans (.reserveIp4Ident count)

/-- The builder of the segments from IPv6. -/
def builder6 (entry : GsoEntry) (e : Endian) (p : Pkt6) (l4Len : Nat) (r : In4 × In4) : SegmentBuilder :=
  match entry with
  | .tcp | .tcpSoftware => buildTcp6to4 e p (TcpHdr.ofBytes (p.data.take l4Len)) l4Len r.1 r.2
  | .udp | .udpSoftware => buildUdp6to4 e p (UdpHdr.ofBytes p.data) r.1 r.2

/-- The packets of an aggregate from IPv6, segment by segment, with the identifications reserved for them. -/
def packets6 (entry : GsoEntry) (g : Gcfg) (ans : (op : PktOp) → op.Ans) (d : List Byte) (v : VnetHdr) (l4Len : Nat)
    (r : In4 × In4) : List (List Byte) :=
  let p := gsoPkt6 d v entry.proto
  let payload := p.data.drop l4Len
  segmentPackets (builder6 entry g.endian p l4Len r)
    (firstIdent ans (gsoDf0Segments payload.length v.gsoSize.toNat (20 + l4Len))) (Cut.cut v.gsoSize.toNat 0 payload)

/-- The software emitters reserve identifications and cut. -/
theorem software_inTurn {count : BitVec 16} {payload : List Byte} (hn : 0 < n) :
    SendsInTurn ans (do
      let nextId ← reserveSegments count
      segmentLoop n build (payload.length + 1) 0 nextId payload)
    (segmentPackets build (firstIdent ans count) (Cut.cut n 0 payload)) := by
  have hloop : ∀ nextId, SendsInTurn ans (segmentLoop n build (payload.length + 1) 0 nextId payload) _ := fun _ =>
    segmentLoop_inTurn hn (Nat.lt_succ_self _)
  unfold reserveSegments firstIdent
  by_cases hzero : count = 0
  · rw [if_pos hzero, if_pos hzero]
    exact hloop 0
  · rw [if_neg hzero, if_neg hzero]
    exact .call rfl (hloop _)

/-- The number of segments of a payload. -/
def segmentCount (len n : Nat) : BitVec 16 := BitVec.ofNat 16 (if len = 0 then 1 else (len + n - 1) / n)

private theorem segmentCount_ne_zero {len : Nat} (hn : 0 < n) (hlen : len ≤ 65535) : segmentCount len n ≠ 0 := by
  have hpos : 0 < (if len = 0 then 1 else (len + n - 1) / n) ∧ (if len = 0 then 1 else (len + n - 1) / n) ≤ 65535 := by
    by_cases hzero : len = 0
    · rw [if_pos hzero]
      omega
    · rw [if_neg hzero]
      refine ⟨Nat.div_pos (by omega) hn, (Nat.div_le_iff_le_mul_add_pred hn).2 ?_⟩
      have := Nat.le_mul_of_pos_right len hn
      have := Nat.mul_le_mul_left n hlen
      rw [Nat.mul_comm n len] at this
      omega
  intro hzero
  have htoNat := congrArg BitVec.toNat hzero
  rw [segmentCount, BitVec.toNat_ofNat, Nat.mod_eq_of_lt (by omega)] at htoNat
  exact hpos.1.ne' htoNat

/-- With every segment short, there is an identification for each. -/
private theorem gsoDf0Segments_short {len : Nat} (hshort : h + maxSeg len n ≤ 1260) :
    gsoDf0Segments len n h = segmentCount len n := by
  unfold gsoDf0Segments segmentCount
  by_cases hzero : len = 0
  · rw [if_pos hzero, if_pos hzero]
    rfl
  rw [if_neg hzero, if_neg hzero]
  unfold maxSeg at hshort
  by_cases hfull : h + n ≤ 1260
  · rw [if_pos hfull]
  · -- one segment, shorter than a full one
    have hlt : len < n := by
      split at hshort <;> omega
    rw [if_neg (by omega)] at hshort
    have htail : len % n ≠ 0 ∧ h + len % n ≤ 1260 := by
      rw [Nat.mod_eq_of_lt hlt]
      exact ⟨hzero, hshort⟩
    have hone : (len + n - 1) / n = 1 := Nat.div_eq_of_lt_le (by omega) (by omega)
    rw [if_neg hfull, if_pos htail, hone]
    rfl

/-- With every segment long, there is none. -/
private theorem gsoDf0Segments_long {len : Nat} (hh : h ≤ 1260) (hlong : 1260 < h + maxSeg len n)
    (hsplit : ¬(1260 < h + n ∧ 0 < len % n ∧ h + len % n ≤ 1260 ∧ n < len)) : gsoDf0Segments len n h = 0 := by
  unfold maxSeg at hlong
  have hfull : ¬h + n ≤ 1260 := by
    split at hlong <;> omega
  have htail : ¬(len % n ≠ 0 ∧ h + len % n ≤ 1260) := by
    rintro ⟨htail, hle⟩
    by_cases hlt : n < len
    · exact hsplit ⟨by omega, by omega, hle, hlt⟩
    · rw [if_neg hlt] at hlong
      rcases Nat.lt_or_eq_of_le (Nat.le_of_not_lt hlt) with hlt | rfl
      · rw [Nat.mod_eq_of_lt hlt] at hle
        omega
      · exact htail (Nat.mod_self _)
  unfold gsoDf0Segments
  rw [if_neg (by split at hlong <;> omega), if_neg hfull, if_neg htail]

/-- The identification and DF of an aggregate that is handed over. -/
def aggregateIdent (ans : (op : PktOp) → op.Ans) (maxLen payloadLen gsoSize : Nat) : BitVec 16 × BitVec 16 :=
  if maxLen ≤ 1260 then (ans (.reserveIp4Ident (segmentCount payloadLen gsoSize)), 0) else (0, ip4FDf)

private theorem wire_gsoIdent {maxLen payloadLen gsoSize : Nat} (f : BitVec 16 × BitVec 16 → PktProg Bool) :
    wire onWire ans (gsoIdent maxLen payloadLen gsoSize >>= f) =
      wire onWire ans (f (aggregateIdent ans maxLen payloadLen gsoSize)) := by
  unfold gsoIdent aggregateIdent
  split <;> rfl

/-- **An aggregate whose segments have DF all clear or all set** is cut in software as the device cuts it. -/
theorem BuildsTo4.unified (hb : BuildsTo4 build h segment) {payload : List Byte} (hn : 0 < n)
    (hh : h ≤ 1260) (hfit : h + payload.length ≤ 65535)
    (hsplit : ¬(1260 < h + n ∧ 0 < payload.length % n ∧ h + payload.length % n ≤ 1260 ∧ n < payload.length)) :
    let r := aggregateIdent ans (h + maxSeg payload.length n) payload.length n
    segmentPackets build (firstIdent ans (gsoDf0Segments payload.length n h)) (Cut.cut n 0 payload) =
    numberedSegments (segment r.2) (if r.2 &&& ip4FDf = 0 then 1 else 0) r.1 (Cut.cut n 0 payload) := by
  have hle : ∀ s ∈ Cut.cut n 0 payload, s.data.length ≤ maxSeg payload.length n := fun s hs => by
    have := length_data_le hn hs
    have := length_data_le_length hs
    unfold maxSeg
    split <;> omega
  dsimp only
  unfold aggregateIdent
  by_cases hshort : h + maxSeg payload.length n ≤ 1260
  · have hne : segmentCount payload.length n ≠ 0 := segmentCount_ne_zero hn (by omega)
    have hall : ∀ s ∈ Cut.cut n 0 payload, h + s.data.length ≤ 1260 := fun s hs => by
      have := hle s hs
      omega
    rw [if_pos hshort, gsoDf0Segments_short hshort, firstIdent, if_neg hne, hb.short hall]
    dsimp only
    rw [if_pos (by decide)]
  · have hlong := Nat.lt_of_not_le hshort
    have hcount := gsoDf0Segments_long hh hlong hsplit
    have hall : ∀ s ∈ Cut.cut n 0 payload, 1260 < h + s.data.length ∧ h + s.data.length ≤ 65535 := fun s hs => by
      have hzero : (gsoDf0Segments payload.length n h).toNat = _ := gsoDf0Segments_eq hn (by omega) (.inr hh)
      have hnot := List.countP_eq_zero.1 (hzero.symm.trans (congrArg BitVec.toNat hcount)) s hs
      have := length_data_le_length hs
      unfold shortPiece at hnot
      rw [decide_eq_true_eq] at hnot
      omega
    rw [if_neg hshort, hcount, firstIdent, if_pos rfl, hb.long hall]
    dsimp only
    rw [if_neg (by decide)]

end Builds

private theorem numberedSegments_map {segment : BitVec 16 → Piece Byte → List Byte} {step : BitVec 16}
    (f : Piece Byte → Piece Byte) (ident : BitVec 16) (pieces : List (Piece Byte)) :
    numberedSegments segment step ident (pieces.map f) =
      numberedSegments (fun i s => segment i (f s)) step ident pieces := by
  induction pieces generalizing ident with
  | nil => rfl
  | cons s rest ih => exact congrArg _ (ih _)

/-- The data of an aggregate from IPv6 behind its header. -/
theorem gsoPkt6_length {proto : Byte} (hip6 : gsoValidIp6 d proto) : (gsoPkt6 d v proto).data.length < 65536 := by
  have := payload_le hip6 0
  exact Nat.lt_succ_of_le this

/-- The head of a split aggregate has neither FIN nor PSH, like the segments in front of the last one. -/
private theorem segmentTcp4_head {tcp : TcpHdr} {total : Nat} (ident : BitVec 16) (s : Piece Byte) :
    segmentTcp4 e p { tcp with flags := tcp.flags &&& ~~~(tcpFlagFin ||| tcpFlagPsh) } flags src4 dst4 total ident s =
      segmentTcp4 e p tcp flags src4 dst4 total ident s.inner := by
  have hflags : ∀ x : Byte, (if s.last then x &&& ~~~(tcpFlagFin ||| tcpFlagPsh) else
      x &&& ~~~(tcpFlagFin ||| tcpFlagPsh) &&& ~~~(tcpFlagFin ||| tcpFlagPsh)) =
        x &&& ~~~(tcpFlagFin ||| tcpFlagPsh) := by
    intro x
    cases s.last
    · exact (BitVec.and_assoc x _ _).trans (congrArg (x &&& ·) BitVec.and_self)
    · rfl
  unfold segmentTcp4 tcpSegment
  dsimp only
  rw [hflags]
  rfl

/-- The tail of a split aggregate, at `offset`. -/
private theorem segmentTcp4_tail {tcp : TcpHdr} {total offset : Nat} (ident : BitVec 16) (tail : List Byte)
    (hoffset : offset ≠ 0) :
    segmentTcp4 e p { tcp with
      seq := tcp.seq + BitVec.ofNat 32 offset
      flags := tcp.flags &&& ~~~tcpFlagCwr } flags src4 dst4 total ident ⟨0, tail, true⟩ =
      segmentTcp4 e p tcp flags src4 dst4 total ident ⟨offset, tail, true⟩ := by
  unfold segmentTcp4 tcpSegment
  dsimp only
  rw [if_pos rfl, if_pos rfl, if_neg hoffset, show ∀ x : BitVec 32, x + BitVec.ofNat 32 0 = x from BitVec.add_zero]
  rfl

/-- The TCP header of an aggregate from IPv6. -/
def tcpHdr6 (d : List Byte) (l4Len : Nat) : TcpHdr := TcpHdr.ofBytes ((d.drop 40).take l4Len)

/-- The header of the head of a split aggregate. -/
def TcpHdr.head (h : TcpHdr) : TcpHdr := { h with flags := h.flags &&& ~~~(tcpFlagFin ||| tcpFlagPsh) }

/-- The headers of the two parts of a split aggregate are as long as that of the aggregate. -/
private theorem tcpHdr6_length (hl4 : l4Len = tcpHdrLen (d.drop 40)) (hmin : 20 ≤ l4Len)
    (hle : l4Len ≤ (d.drop 40).length) :
    20 + (tcpHdr6 d l4Len).options.length = l4Len ∧ ((tcpHdr6 d l4Len).doffRes >>> 4).toNat * 4 = l4Len := by
  obtain ⟨hbytes, hdoff⟩ := tcpHeader (d.drop 40) hl4 hmin hle
  rw [length_tcp] at hbytes
  exact ⟨hbytes, hdoff.symm.trans hbytes⟩

variable (g src4 dst4) in
/-- The head of a split aggregate, as it is handed over. -/
private theorem gsoTcpHead_eq (hstart : v.csumStart.toNat = 40) (hoffset : v.csumOffset.toNat = 16)
    (hl4 : l4Len = tcpHdrLen (d.drop 40)) (hmin : 20 ≤ l4Len) {headLen : Nat}
    (hhead : l4Len + headLen ≤ (d.drop 40).length) :
    ∃ w, TcpOffload w vnetGsoTcpv4 20 v.gsoSize.toNat (((d.drop 40).drop l4Len).take headLen).length ∧
      w.hdrLen.toNat ≤ 20 + (l4Len + headLen) ∧ gsoTcpHead g v (gsoPkt6 d v 6) l4Len headLen src4 dst4 =
      (some w, (gsoIp4 g.endian (gsoPkt6 d v 6).ip6.tc ((gsoPkt6 d v 6).ip6.hopLimit - 1) 6 0 ip4FDf src4 dst4
          (20 + (l4Len + headLen))).toBytes ++
        ({ (tcpHdr6 d l4Len).head with
          cksum := gsoCalcPseudo4 src4 dst4 6 (BitVec.ofNat 32 (l4Len + headLen)) }.toBytes ++
          ((d.drop 40).drop l4Len).take headLen)) := by
  have htake : ((d.drop 40).take (l4Len + headLen)).take l4Len = (d.drop 40).take l4Len := by
    rw [List.take_take, Nat.min_eq_left (Nat.le_add_right _ _)]
  have hdrop : ((d.drop 40).take (l4Len + headLen)).drop l4Len = ((d.drop 40).drop l4Len).take headLen := by
    rw [List.drop_take, Nat.add_sub_cancel_left]
  have hlen : ((d.drop 40).take (l4Len + headLen)).length = l4Len + headLen := List.length_take_of_le hhead
  have hpart : (((d.drop 40).drop l4Len).take headLen).length = headLen := by
    rw [List.length_take, List.length_drop]
    omega
  have hoptions := (tcpHdr6_length hl4 hmin (by omega)).1
  have hout : ∀ (ip4 : Ip4) (cksum : BitVec 16), (ip4.toBytes ++ ({ (tcpHdr6 d l4Len).head with
      cksum := cksum }.toBytes ++ ((d.drop 40).drop l4Len).take headLen)).length = 20 + (l4Len + headLen) := by
    intro ip4 cksum
    rw [List.length_append, List.length_append, length_ip4, hpart, length_tcp]
    exact congrArg (20 + (· + headLen)) hoptions
  rw [hpart]
  have hw := fun hdrLen => tcpOffload_moved (.inl rfl) hstart hoffset (show 20 ≤ 40 by decide) rfl hdrLen headLen
  unfold gsoTcpHead
  dsimp only
  rw [show (gsoPkt6 d v 6).data = d.drop 40 from rfl, htake, hdrop, hlen, List.append_assoc]
  split
  · refine ⟨_, hw _, ?_, rfl⟩
    rw [(gsoNormalizeTcpOutput_fields rfl).1, BitVec.toNat_ofNat]
    exact (Nat.mod_le _ _).trans (hout _ _).le
  · next hle =>
    refine ⟨_, hw _, ?_, rfl⟩
    rw [(gsoNormalizeTcpOutput_fields rfl).1]
    exact (Nat.le_of_not_lt hle).trans (hout _ _).le

/-- The head of a split aggregate on the wire. -/
theorem onWire_gsoTcpHead (hdata : (d.drop 40).length < 65536) (hstart : v.csumStart.toNat = 40)
    (hoffset : v.csumOffset.toNat = 16) (hl4 : l4Len = tcpHdrLen (d.drop 40)) (hmin : 20 ≤ l4Len) {headLen : Nat}
    (hhead : l4Len + headLen ≤ (d.drop 40).length) :
    onWire (gsoTcpHead g v (gsoPkt6 d v 6) l4Len headLen src4 dst4).1
        (gsoTcpHead g v (gsoPkt6 d v 6) l4Len headLen src4 dst4).2 =
      numberedSegments
        (segmentTcp4 g.endian (gsoPkt6 d v 6) (tcpHdr6 d l4Len) ip4FDf src4 dst4 (l4Len + headLen)) 0 0
        ((Cut.cut v.gsoSize.toNat 0 (((d.drop 40).drop l4Len).take headLen)).map Piece.inner) := by
  obtain ⟨hoptions, hdoff⟩ := tcpHdr6_length hl4 hmin (by omega)
  obtain ⟨w, hw, -, hhdr⟩ := gsoTcpHead_eq g src4 dst4 hstart hoffset hl4 hmin hhead
  have hlen : l4Len + headLen =
      ((tcpHdr6 d l4Len).head.toBytes ++ ((d.drop 40).drop l4Len).take headLen).length := by
    rw [List.length_append, length_tcp, List.length_take, List.length_drop]
    have hoptions : 20 + (tcpHdr6 d l4Len).head.options.length = l4Len := hoptions
    omega
  rw [hhdr, numberedSegments_map]
  simp only [← segmentTcp4_head]
  refine (onWire_tcp4 _ _ _ _ _ _ hlen (by omega) (hoptions.trans hdoff.symm) hw).trans ?_
  rw [if_neg (by decide)]
  rfl

private theorem handed_gsoTcpHead (hdata : 20 + (d.drop 40).length < 65536) (hstart : v.csumStart.toNat = 40)
    (hoffset : v.csumOffset.toNat = 16) (hl4 : l4Len = tcpHdrLen (d.drop 40)) (hmin : 20 ≤ l4Len) {headLen : Nat}
    (hhead : l4Len + headLen ≤ (d.drop 40).length) (hpos : 0 < v.gsoSize.toNat) :
    Handed (gsoTcpHead g v (gsoPkt6 d v 6) l4Len headLen src4 dst4).1
      (gsoTcpHead g v (gsoPkt6 d v 6) l4Len headLen src4 dst4).2 := by
  obtain ⟨hoptions, hdoff⟩ := tcpHdr6_length hl4 hmin (by omega)
  obtain ⟨w, hw, hhdrLen, hhdr⟩ := gsoTcpHead_eq g src4 dst4 hstart hoffset hl4 hmin hhead
  rw [hhdr]
  refine handed_tcp4 _ _ _ _ _ _ ?_ (by omega) (hoptions.trans hdoff.symm) hw hpos hhdrLen
  rw [List.length_append, length_tcp, List.length_take, List.length_drop]
  have hoptions : 20 + (tcpHdr6 d l4Len).head.options.length = l4Len := hoptions
  show l4Len + headLen = 20 + (tcpHdr6 d l4Len).head.options.length + _
  omega

/-- The header of the tail of a split aggregate. -/
def TcpHdr.tail (h : TcpHdr) (headLen : Nat) : TcpHdr :=
  { h with seq := h.seq + BitVec.ofNat 32 headLen, flags := h.flags &&& ~~~tcpFlagCwr }

/-- The virtio header of the tail. -/
def tailVhdr (l4Len : Nat) : VnetHdr :=
  { VnetHdr.zero with
    flags := vnetNeedsCsum
    gsoType := vnetGsoNone
    hdrLen := BitVec.ofNat 16 (20 + l4Len)
    csumStart := 20
    csumOffset := 16 }

private theorem tailVhdr_offload (l4Len len : Nat) : TcpOffload (tailVhdr l4Len) vnetGsoTcpv4 20 len len :=
  ⟨.inl rfl, rfl, rfl, show decide (vnetNeedsCsum &&& vnetNeedsCsum ≠ 0) = true by decide,
    .inl ⟨show vnetGsoNone &&& ~~~vnetGsoEcn = vnetGsoNone by decide, Nat.le_refl _⟩⟩

variable (src4 dst4) in
/-- The tail of a split aggregate, as it is handed over. -/
private theorem gsoTcpTail_eq (hvnet : 0 < g.vnetHdrSz) (headLen : Nat) (ident : BitVec 16) :
    let tail := (d.drop 40).drop (l4Len + headLen)
    let cksum := gsoCalcPseudo4 src4 dst4 6 (BitVec.ofNat 32 (l4Len + tail.length))
    gsoTcpTail g (gsoPkt6 d v 6) l4Len headLen src4 dst4 ident =
      (some (tailVhdr l4Len), (gsoIp4 g.endian (gsoPkt6 d v 6).ip6.tc ((gsoPkt6 d v 6).ip6.hopLimit - 1) 6 ident 0 src4
          dst4 (20 + (l4Len + tail.length))).toBytes ++
        ({ (tcpHdr6 d l4Len).tail headLen with cksum := cksum }.toBytes ++ tail)) := by
  dsimp only
  unfold gsoTcpTail
  dsimp only
  rw [if_pos hvnet, List.append_assoc]
  rfl

/-- The tail of a split aggregate on the wire. -/
private theorem onWire_gsoTcpTail (hvnet : 0 < g.vnetHdrSz) (hdata : (d.drop 40).length < 65536)
    (hl4 : l4Len = tcpHdrLen (d.drop 40)) (hmin : 20 ≤ l4Len) {headLen : Nat} (hhead : 0 < headLen)
    (hfit : l4Len + headLen ≤ (d.drop 40).length) (ident : BitVec 16) :
    onWire (gsoTcpTail g (gsoPkt6 d v 6) l4Len headLen src4 dst4 ident).1
        (gsoTcpTail g (gsoPkt6 d v 6) l4Len headLen src4 dst4 ident).2 =
      [segmentTcp4 g.endian (gsoPkt6 d v 6) (tcpHdr6 d l4Len) 0 src4 dst4
        (l4Len + ((d.drop 40).drop (l4Len + headLen)).length) ident
        ⟨headLen, (d.drop 40).drop (l4Len + headLen), true⟩] := by
  obtain ⟨hoptions, hdoff⟩ := tcpHdr6_length hl4 hmin (by omega)
  have htail : ((d.drop 40).drop (l4Len + headLen)).length ≤ (d.drop 40).length - (l4Len + headLen) :=
    (List.length_drop).le
  rw [gsoTcpTail_eq src4 dst4 hvnet, ← segmentTcp4_tail ident _ (Nat.pos_iff_ne_zero.1 hhead)]
  generalize (d.drop 40).drop (l4Len + headLen) = tail at *
  have hlen : l4Len + tail.length = (((tcpHdr6 d l4Len).tail headLen).toBytes ++ tail).length := by
    rw [List.length_append, length_tcp]
    exact congrArg (· + tail.length) hoptions.symm
  refine (onWire_tcp4 g.endian (gsoPkt6 d v 6) src4 dst4 ident 0 hlen (by omega) (hoptions.trans hdoff.symm)
    (tailVhdr_offload l4Len tail.length)).trans ?_
  rw [cut_of_le 0 (Nat.le_refl _)]
  rfl

private theorem handed_gsoTcpTail (hdata : 20 + (d.drop 40).length < 65536) (hl4 : l4Len = tcpHdrLen (d.drop 40))
    (hmin : 20 ≤ l4Len) {headLen : Nat} (hfit : l4Len + headLen < (d.drop 40).length) (ident : BitVec 16) :
    Handed (gsoTcpTail g (gsoPkt6 d v 6) l4Len headLen src4 dst4 ident).1
      (gsoTcpTail g (gsoPkt6 d v 6) l4Len headLen src4 dst4 ident).2 := by
  by_cases hvnet : 0 < g.vnetHdrSz
  swap
  · unfold gsoTcpTail
    dsimp only
    rw [if_neg hvnet]
    exact fun v h => absurd h (Option.some_ne_none v).symm
  obtain ⟨hoptions, hdoff⟩ := tcpHdr6_length hl4 hmin (by omega)
  have htail : ((d.drop 40).drop (l4Len + headLen)).length = (d.drop 40).length - (l4Len + headLen) := List.length_drop
  rw [gsoTcpTail_eq src4 dst4 hvnet]
  generalize (d.drop 40).drop (l4Len + headLen) = tail at *
  refine handed_tcp4 _ _ _ _ _ _ ?_ (by omega) (hoptions.trans hdoff.symm) (tailVhdr_offload l4Len tail.length)
    (by omega) ?_
  · rw [List.length_append, length_tcp]
    exact congrArg (· + tail.length) hoptions.symm
  · have hle := Nat.mod_le (20 + l4Len) 65536
    show (BitVec.ofNat 16 (20 + l4Len)).toNat ≤ _
    rw [BitVec.toNat_ofNat]
    omega

variable (ans src4 dst4) in
/-- **A TCP aggregate that is split in two** is cut in software the same way. -/
theorem tcpSplit_wire6 (hvnet : 0 < g.vnetHdrSz) {payload : List Byte}
    (hstart : v.csumStart.toNat = 40) (hoffset : v.csumOffset.toNat = 16) (hl4 : l4Len = tcpHdrLen (d.drop 40))
    (hmin : 20 ≤ l4Len) (hle : l4Len ≤ (d.drop 40).length) (hpayload : (d.drop 40).drop l4Len = payload)
    (hfit : 20 + l4Len + payload.length ≤ 65535) (hpos : 0 < v.gsoSize.toNat)
    (hsplit : SplitsTcp6 l4Len payload.length v.gsoSize.toNat) :
    onWire (gsoTcpHead g v (gsoPkt6 d v 6) l4Len (payload.length / v.gsoSize.toNat * v.gsoSize.toNat) src4 dst4).1
        (gsoTcpHead g v (gsoPkt6 d v 6) l4Len (payload.length / v.gsoSize.toNat * v.gsoSize.toNat) src4 dst4).2 ++
      onWire (gsoTcpTail g (gsoPkt6 d v 6) l4Len (payload.length / v.gsoSize.toNat * v.gsoSize.toNat) src4 dst4
          (ans (.reserveIp4Ident 1))).1
        (gsoTcpTail g (gsoPkt6 d v 6) l4Len (payload.length / v.gsoSize.toNat * v.gsoSize.toNat) src4 dst4
          (ans (.reserveIp4Ident 1))).2 =
    segmentPackets (buildTcp6to4 g.endian (gsoPkt6 d v 6) (tcpHdr6 d l4Len) l4Len src4 dst4)
      (firstIdent ans (gsoDf0Segments payload.length v.gsoSize.toNat (20 + l4Len)))
      (Cut.cut v.gsoSize.toNat 0 payload) := by
  obtain ⟨hbig, htail, hshort, hlt⟩ := hsplit
  have hlen : (d.drop 40).length = l4Len + payload.length := by
    rw [← hpayload, List.length_drop (i := l4Len)]
    omega
  obtain ⟨hbytes, hdoff⟩ := tcpHeader (d.drop 40) hl4 hmin hle
  have hbuilds : ∀ total < 65536, BuildsTo4 (buildTcp6to4 g.endian (gsoPkt6 d v 6) (tcpHdr6 d l4Len) l4Len src4 dst4)
      (20 + l4Len) fun flags => segmentTcp4 g.endian (gsoPkt6 d v 6) (tcpHdr6 d l4Len) flags src4 dst4 total := by
    intro total htotal
    have hb := buildTcp6to4_builds g.endian src4 dst4 (show (gsoPkt6 d v 6).dataProto = 6 from rfl) htotal hdoff
    rwa [hbytes] at hb
  have hmax := tcpHdrLen_le (d.drop 40)
  have hdiv := Nat.div_add_mod' payload.length v.gsoSize.toNat
  have hmod := Nat.mod_lt payload.length hpos
  have hk : 0 < payload.length / v.gsoSize.toNat := Nat.div_pos hlt.le hpos
  have hhead : 0 < payload.length / v.gsoSize.toNat * v.gsoSize.toNat := Nat.mul_pos hk hpos
  have hcount : gsoDf0Segments payload.length v.gsoSize.toNat (20 + l4Len) = 1 := by
    unfold gsoDf0Segments
    rw [if_neg (by omega), if_neg (by omega), if_pos ⟨htail.ne', hshort⟩]
  have hcut : Cut.cut v.gsoSize.toNat 0 payload = _ := cut_split hk 0 (by omega) (by rw [Nat.succ_mul]; omega)
  rw [hcount, hcut]
  generalize payload.length / v.gsoSize.toNat = k at *
  have hpart : (payload.take (k * v.gsoSize.toNat)).length = k * v.gsoSize.toNat := List.length_take_of_le (by omega)
  have hdrop : (d.drop 40).drop (l4Len + k * v.gsoSize.toNat) = payload.drop (k * v.gsoSize.toNat) := by
    rw [← List.drop_drop, hpayload]
  have hrest : (payload.drop (k * v.gsoSize.toNat)).length = payload.length % v.gsoSize.toNat := by
    rw [List.length_drop]
    omega
  have hlong : ∀ s ∈ (Cut.cut v.gsoSize.toNat 0 (payload.take (k * v.gsoSize.toNat))).map Piece.inner,
      1260 < 20 + l4Len + s.data.length ∧ 20 + l4Len + s.data.length ≤ 65535 := fun s hs => by
    obtain ⟨s', hs', rfl⟩ := List.mem_map.1 hs
    have hfull := length_data_of_mul hpos hk hpart hs'
    show 1260 < 20 + l4Len + s'.data.length ∧ 20 + l4Len + s'.data.length ≤ 65535
    omega
  have hlast : ∀ s ∈ [(⟨0 + k * v.gsoSize.toNat, payload.drop (k * v.gsoSize.toNat), true⟩ : Piece Byte)],
      20 + l4Len + s.data.length ≤ 1260 := fun s hs => by
    rw [List.mem_singleton.1 hs]
    show 20 + l4Len + (payload.drop (k * v.gsoSize.toNat)).length ≤ 1260
    omega
  rw [onWire_gsoTcpHead (by omega) hstart hoffset hl4 hmin (by omega), onWire_gsoTcpTail hvnet (by omega) hl4 hmin hhead
    (by omega), hdrop, hpayload, (hbuilds (l4Len + k * v.gsoSize.toNat) (by omega)).append_long hlong,
    (hbuilds (l4Len + k * v.gsoSize.toNat) (by omega)).long hlong,
    (hbuilds (l4Len + (payload.drop (k * v.gsoSize.toNat)).length) (by omega)).short hlast, Nat.zero_add]
  rfl

/-- A TCP aggregate in one part on the wire. -/
theorem onWire_tcpAggregate6 (h : Aggregate6 .tcp d v l4Len) (r : In4 × In4) (ident flags : BitVec 16) :
    onWire (some (gsoNormalizeTcpOutput (gsoTcpVhdr v vnetGsoTcpv4 40 20) ((gsoPkt6 d v 6).data.drop l4Len).length))
      ((gsoIp4 g.endian (gsoPkt6 d v 6).ip6.tc ((gsoPkt6 d v 6).ip6.hopLimit - 1) 6 ident flags r.1 r.2
        (20 + (gsoPkt6 d v 6).data.length)).toBytes ++ put (gsoPkt6 d v 6).data 16
          (be16 (gsoCalcPseudo4 r.1 r.2 6 (BitVec.ofNat 32 (gsoPkt6 d v 6).data.length)))) =
    numberedSegments (segmentTcp4 g.endian (gsoPkt6 d v 6) (tcpHdr6 d l4Len) flags r.1 r.2 (d.drop 40).length)
      (if flags &&& ip4FDf = 0 then 1 else 0) ident (Cut.cut v.gsoSize.toNat 0 ((d.drop 40).drop l4Len)) := by
  have htcp : TcpAggregate6 d v false l4Len := h.hl4
  obtain ⟨-, -, hstart, hoffset, -⟩ := gsoValidateTransportVnet_iff.1 (htcp.hvnet (.inl rfl))
  have hfit := htcp.hfit
  have hle : l4Len ≤ (d.drop 40).length := by
    rw [List.length_drop]
    omega
  have hdoff := (tcpHeader (d.drop 40) htcp.hl4 htcp.hmin hle).2
  have hput := put_tcp (tcpHdr6 d l4Len) ((d.drop 40).drop l4Len)
  rw [tcpHdr6, TcpHdr.toBytes_ofBytes_take htcp.hmin hle] at hput
  have hw : TcpOffload _ _ 20 v.gsoSize.toNat ((d.drop 40).drop l4Len).length :=
    tcpOffload_moved (.inl rfl) hstart hoffset (by decide) rfl (gsoTcpVhdr v vnetGsoTcpv4 40 20).hdrLen _
  rw [show (gsoPkt6 d v 6).data = d.drop 40 from rfl, hput]
  refine onWire_tcp4 g.endian (gsoPkt6 d v 6) r.1 r.2 ident flags ?_ (gsoPkt6_length (v := v) h.hip6) hdoff hw
  rw [TcpHdr.toBytes_ofBytes_take htcp.hmin hle]

private theorem handed_tcpAggregate6 (h : Aggregate6 .tcp d v l4Len) (hfit : 20 + (d.drop 40).length < 65536)
    (r : In4 × In4) (ident flags : BitVec 16) :
    Handed (some (gsoNormalizeTcpOutput (gsoTcpVhdr v vnetGsoTcpv4 40 20) ((gsoPkt6 d v 6).data.drop l4Len).length))
      ((gsoIp4 g.endian (gsoPkt6 d v 6).ip6.tc ((gsoPkt6 d v 6).ip6.hopLimit - 1) 6 ident flags r.1 r.2
        (20 + (gsoPkt6 d v 6).data.length)).toBytes ++ put (gsoPkt6 d v 6).data 16
          (be16 (gsoCalcPseudo4 r.1 r.2 6 (BitVec.ofNat 32 (gsoPkt6 d v 6).data.length)))) := by
  have htcp : TcpAggregate6 d v false l4Len := h.hl4
  obtain ⟨-, -, hstart, hoffset, hhdrMin, hhdrMax⟩ := gsoValidateTransportVnet_iff.1 (htcp.hvnet (.inl rfl))
  have hle : l4Len ≤ (d.drop 40).length := by
    have := htcp.hfit
    rw [List.length_drop]
    omega
  obtain ⟨hoptions, hdoff⟩ := tcpHdr6_length htcp.hl4 htcp.hmin hle
  have hput := put_tcp (tcpHdr6 d l4Len) ((d.drop 40).drop l4Len)
  rw [tcpHdr6, TcpHdr.toBytes_ofBytes_take htcp.hmin hle] at hput
  have hw : TcpOffload _ _ 20 v.gsoSize.toNat ((d.drop 40).drop l4Len).length :=
    tcpOffload_moved (.inl rfl) hstart hoffset (by decide) rfl (gsoTcpVhdr v vnetGsoTcpv4 40 20).hdrLen _
  rw [show (gsoPkt6 d v 6).data = d.drop 40 from rfl, hput]
  refine handed_tcp4 g.endian (gsoPkt6 d v 6) r.1 r.2 ident flags ?_ hfit (hoptions.trans hdoff.symm) hw
    (gsoSize_pos h.hheader) ?_
  · rw [List.length_append, length_tcp, List.length_drop (i := l4Len)]
    show _ = 20 + (tcpHdr6 d l4Len).options.length + _
    omega
  · have hnet : 40 ≤ v.hdrLen.toNat := by omega
    have hmoved : (v.hdrLen + 20 - 40).toNat = (v.hdrLen.toNat + 20 - 40) % 65536 := moved_toNat hnet (by decide)
    have hle := Nat.mod_le (v.hdrLen.toNat + 20 - 40) 65536
    have hdata : (d.drop 40).length = d.length - 40 := List.length_drop
    rw [(gsoNormalizeTcpOutput_fields rfl).1, hdata]
    show (v.hdrLen + 20 - 40).toNat ≤ _
    rw [hmoved]
    omega

/-- **A TCP aggregate to IPv4** that is handed over, in one part or in two. -/
theorem tcp_wire6 (hvnet : 0 < g.vnetHdrSz) (h : Aggregate6 .tcp d v l4Len)
    (hlong : ¬65535 < 20 + l4Len + ((d.drop 40).drop l4Len).length) (r : In4 × In4) :
    wire onWire ans (GsoEntry.send6 .tcp g d v l4Len r) = packets6 .tcp g ans d v l4Len r := by
  have htcp : TcpAggregate6 d v false l4Len := h.hl4
  obtain ⟨-, -, hstart, hoffset, -⟩ := gsoValidateTransportVnet_iff.1 (htcp.hvnet (.inl rfl))
  have hmin := htcp.hmin
  have hfit := htcp.hfit
  have hl4 := htcp.hl4
  have hmax := tcpHdrLen_le (d.drop 40)
  have hpos := gsoSize_pos h.hheader
  have hdata : (d.drop 40).length < 65536 := gsoPkt6_length (v := v) h.hip6
  have hle : l4Len ≤ (d.drop 40).length := by
    rw [List.length_drop]
    omega
  have hlen : (d.drop 40).length = l4Len + ((d.drop 40).drop l4Len).length := by
    rw [List.length_drop (i := l4Len)]
    omega
  by_cases hsplit : SplitsTcp6 l4Len ((d.drop 40).drop l4Len).length v.gsoSize.toNat
  · have hsend : GsoEntry.send6 .tcp g d v l4Len r = _ := (if_neg hlong).trans (if_pos hsplit)
    have htwo := tcpSplit_wire6 ans r.1 r.2 hvnet hstart hoffset hl4 hmin hle rfl (by omega) hpos hsplit
    rw [hsend]
    exact (congrArg _ (List.append_nil _)).trans htwo
  · have hsend : GsoEntry.send6 .tcp g d v l4Len r = _ := (if_neg hlong).trans (if_neg hsplit)
    obtain ⟨hbytes, hdoff⟩ := tcpHeader (d.drop 40) hl4 hmin hle
    have hbuilds := buildTcp6to4_builds g.endian r.1 r.2 (show (gsoPkt6 d v 6).dataProto = 6 from rfl) hdata hdoff
    rw [hbytes] at hbuilds
    rw [hsend, wire_gsoIdent]
    refine Eq.trans ?_ (hbuilds.unified hpos (by omega) (by omega) hsplit).symm
    dsimp only
    rw [wire_emit]
    exact (List.append_nil _).trans (onWire_tcpAggregate6 h r _ _)

/-- The virtio header of a UDP aggregate to IPv4. -/
private theorem udpOffload4 (v : VnetHdr) : UdpOffload (gsoUdpVhdr v 20) 20 v.gsoSize.toNat :=
  ⟨rfl, rfl, decide_eq_true (needsCsum_set v.flags), gsoUdpVhdr_gso v 20, rfl⟩

/-- A UDP aggregate on the wire. -/
theorem onWire_udpAggregate6 (h : Aggregate6 .udp d v 8) (r : In4 × In4) (ident flags : BitVec 16) :
    onWire (some (gsoUdpVhdr v 20))
      ((gsoIp4 g.endian (gsoPkt6 d v 17).ip6.tc ((gsoPkt6 d v 17).ip6.hopLimit - 1) 17 ident flags r.1 r.2
        (20 + (gsoPkt6 d v 17).data.length)).toBytes ++ gsoUdpSeed (gsoPkt6 d v 17).data
          (gsoCalcPseudo4 r.1 r.2 17 (BitVec.ofNat 32 (gsoPkt6 d v 17).data.length))) =
    numberedSegments
      (segmentUdp4 g.endian (gsoPkt6 d v 17) (UdpHdr.ofBytes (d.drop 40)) flags r.1 r.2 (d.drop 40).length)
      (if flags &&& ip4FDf = 0 then 1 else 0) ident (Cut.cut v.gsoSize.toNat 0 ((d.drop 40).drop 8)) := by
  have hudp : UdpAggregate d v 40 8 := h.hl4
  have hfit := hudp.hfit
  have hlen : (d.drop 40).length = 8 + ((d.drop 40).drop 8).length := by
    rw [List.length_drop (i := 8), List.length_drop]
    omega
  rw [show (gsoPkt6 d v 17).data = d.drop 40 from rfl, gsoUdpSeed_eq (by omega)]
  exact onWire_udp4 g.endian (gsoPkt6 d v 17) r.1 r.2 ident flags hlen (udpOffload4 v)

private theorem handed_udpAggregate6 (h : Aggregate6 .udp d v 8) (hfits : 20 + (d.drop 40).length < 65536)
    (r : In4 × In4) (ident flags : BitVec 16) :
    Handed (some (gsoUdpVhdr v 20))
      ((gsoIp4 g.endian (gsoPkt6 d v 17).ip6.tc ((gsoPkt6 d v 17).ip6.hopLimit - 1) 17 ident flags r.1 r.2
        (20 + (gsoPkt6 d v 17).data.length)).toBytes ++ gsoUdpSeed (gsoPkt6 d v 17).data
          (gsoCalcPseudo4 r.1 r.2 17 (BitVec.ofNat 32 (gsoPkt6 d v 17).data.length))) := by
  have hudp : UdpAggregate d v 40 8 := h.hl4
  have hfit := hudp.hfit
  have hlen : (d.drop 40).length = 8 + ((d.drop 40).drop 8).length := by
    rw [List.length_drop (i := 8), List.length_drop]
    omega
  rw [show (gsoPkt6 d v 17).data = d.drop 40 from rfl, gsoUdpSeed_eq (by omega)]
  refine handed_udp4 g.endian (gsoPkt6 d v 17) r.1 r.2 ident flags hlen hfits (udpOffload4 v) (gsoSize_pos h.hheader) ?_
  show 28 ≤ _
  omega

/-- **A UDP aggregate to IPv4** that is handed over. -/
theorem udp_wire6 (h : Aggregate6 .udp d v 8) (hcuts : ¬CutsUdp6 g (d.drop 40) v.gsoSize.toNat) (r : In4 × In4) :
    wire onWire ans (GsoEntry.send6 .udp g d v 8 r) = packets6 .udp g ans d v 8 r := by
  have hudp : UdpAggregate d v 40 8 := h.hl4
  have hfit := hudp.hfit
  have hpos := gsoSize_pos h.hheader
  have hdata : (d.drop 40).length < 65536 := gsoPkt6_length (v := v) h.hip6
  have hlen : (d.drop 40).length = 8 + ((d.drop 40).drop 8).length := by
    rw [List.length_drop (i := 8), List.length_drop]
    omega
  have hsend : GsoEntry.send6 .udp g d v 8 r = _ := if_neg hcuts
  obtain ⟨-, hlong, hmixed⟩ := (not_or.1 hcuts).imp_right not_or.1
  have hsplit : ¬(1260 < 20 + 8 + v.gsoSize.toNat ∧ 0 < ((d.drop 40).drop 8).length % v.gsoSize.toNat ∧
      20 + 8 + ((d.drop 40).drop 8).length % v.gsoSize.toNat ≤ 1260 ∧
      v.gsoSize.toNat < ((d.drop 40).drop 8).length) := by
    rintro ⟨hbig, htail, hshort, hlt⟩
    refine hmixed ⟨(Nat.div_pos hlt.le hpos).ne', htail.ne', ?_⟩
    rw [decide_eq_true hshort, maxSeg, if_pos hlt, decide_eq_false (by omega)]
    exact Bool.false_ne_true
  have hbuilds : BuildsTo4 (buildUdp6to4 g.endian (gsoPkt6 d v 17) (UdpHdr.ofBytes (d.drop 40)) r.1 r.2) (20 + 8) _ :=
    buildUdp6to4_builds g.endian r.1 r.2 (show (gsoPkt6 d v 17).dataProto = 17 from rfl) hdata
  rw [hsend, wire_gsoIdent]
  refine Eq.trans ?_ (hbuilds.unified hpos (by omega) (by omega) hsplit).symm
  dsimp only
  rw [wire_emit]
  exact (List.append_nil _).trans (onWire_udpAggregate6 h r _ _)

/-- **What an entry point sends** to IPv4. -/
theorem send6_inTurn (hvnet : 0 < g.vnetHdrSz) (h : Aggregate6 entry d v l4Len) (r : In4 × In4) :
    SendsInTurn ans (entry.send6 g d v l4Len r) (packets6 entry g ans d v l4Len r) := by
  have hpos := gsoSize_pos h.hheader
  have hudp (hl4 : UdpAggregate d v 40 l4Len) : SendsInTurn ans (GsoEntry.send6 .udpSoftware g d v l4Len r)
      (packets6 .udpSoftware g ans d v l4Len r) := by
    obtain rfl := hl4.hl4
    exact software_inTurn hpos
  cases entry with
  | tcp =>
    by_cases hlong : 65535 < 20 + l4Len + ((d.drop 40).drop l4Len).length
    · rw [show GsoEntry.send6 .tcp g d v l4Len r = GsoEntry.send6 .tcpSoftware g d v l4Len r from if_pos hlong]
      exact software_inTurn hpos
    · exact .of_eq (tcp_wire6 hvnet h hlong r)
  | tcpSoftware => exact software_inTurn hpos
  | udp =>
    have hl4 : UdpAggregate d v 40 l4Len := h.hl4
    obtain rfl := hl4.hl4
    by_cases hcuts : CutsUdp6 g (d.drop 40) v.gsoSize.toNat
    · rw [show GsoEntry.send6 .udp g d v 8 r = GsoEntry.send6 .udpSoftware g d v 8 r from if_pos hcuts]
      exact hudp hl4
    · exact .of_eq (udp_wire6 h hcuts r)
  | udpSoftware => exact hudp h.hl4

/-- What an entry point sends to IPv4 goes out. -/
theorem send6_handed (h : Aggregate6 entry d v l4Len) (r : In4 × In4) :
    OnlySends Handed (entry.send6 g d v l4Len r) := by
  have hpos := gsoSize_pos h.hheader
  have hsoftware : ∀ {gsoSize n : Nat} {count : BitVec 16} {build : SegmentBuilder} {payload : List Byte},
      OnlySends Handed (do
        let nextId ← reserveSegments count
        segmentLoop gsoSize build n 0 nextId payload) := fun {gsoSize n count build payload} =>
    OnlySends.bind (.ite (fun _ => .done _) fun _ => ⟨trivial, fun _ => trivial⟩) fun _ =>
      segmentLoop_sends (fun _ _ _ _ _ _ => handed_none _) _ _ _ _
  have hident : ∀ {maxLen payloadLen gsoSize : Nat} {w : Option VnetHdr} {packet : BitVec 16 × BitVec 16 → List Byte},
      (∀ i, Handed w (packet i)) → OnlySends Handed (do
        let i ← gsoIdent maxLen payloadLen gsoSize
        emit w (packet i)
        return true) := fun hp =>
    OnlySends.bind (.ite (fun _ => ⟨trivial, fun _ => trivial⟩) fun _ => .done _) fun i => ⟨hp i, fun _ => trivial⟩
  cases entry with
  | tcp =>
    have htcp : TcpAggregate6 d v false l4Len := h.hl4
    obtain ⟨-, -, hstart, hoffset, -⟩ := gsoValidateTransportVnet_iff.1 (htcp.hvnet (.inl rfl))
    have hfit := htcp.hfit
    have hlen : (d.drop 40).length = l4Len + ((d.drop 40).drop l4Len).length := by
      rw [List.length_drop (i := l4Len), List.length_drop]
      omega
    refine .ite (fun _ => hsoftware) fun hlong => .ite (fun hsplit => ?_) fun _ => ?_
    · have hlong : ¬65535 < 20 + l4Len + ((d.drop 40).drop l4Len).length := hlong
      have hsplit : SplitsTcp6 l4Len ((d.drop 40).drop l4Len).length v.gsoSize.toNat := hsplit
      have hmod := Nat.div_add_mod' ((d.drop 40).drop l4Len).length v.gsoSize.toNat
      have htail := hsplit.2.1
      refine ⟨?_, fun _ => ⟨trivial, fun i => ⟨?_, fun _ => trivial⟩⟩⟩
      · exact handed_gsoTcpHead (by omega) hstart hoffset htcp.hl4 htcp.hmin
          (show l4Len + ((d.drop 40).drop l4Len).length / v.gsoSize.toNat * v.gsoSize.toNat ≤ _ by omega) hpos
      · exact handed_gsoTcpTail (by omega) htcp.hl4 htcp.hmin
          (show l4Len + ((d.drop 40).drop l4Len).length / v.gsoSize.toNat * v.gsoSize.toNat < _ by omega) i
    · have hlong : ¬65535 < 20 + l4Len + ((d.drop 40).drop l4Len).length := hlong
      exact hident fun i => handed_tcpAggregate6 h (by omega) r i.1 i.2
  | tcpSoftware | udpSoftware => exact hsoftware
  | udp =>
    have hudp : UdpAggregate d v 40 l4Len := h.hl4
    obtain rfl := hudp.hl4
    refine .ite (fun _ => hsoftware) fun hcuts => hident fun i => handed_udpAggregate6 h ?_ r i.1 i.2
    have hlong : ¬65535 < 20 + (d.drop 40).length := (not_or.1 (not_or.1 hcuts).2).1
    omega

end To4

end Tayga
