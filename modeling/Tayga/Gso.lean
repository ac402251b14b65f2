import Tayga.Payload

/-!
# Segmentation offload

`gso.c`: aggregates of TCP and UDP segments, translated as they are or cut in software.  Every entry point returns
whether it took the packet (0 in the source) or refused it (-1).  The four software emitters share one loop
(`segmentLoop`) that differs in how a segment is built.
-/

namespace Tayga

open Program

/-! ### Validation -/

/-- `gso_validate_header` of a packet with a virtio header: 0 for no aggregate, 1 for a valid one, else -1. -/
def gsoValidateHeader (dataLen : Nat) (v : VnetHdr) : Int :=
  if v.gso = vnetGsoNone then 0
  else if v.gso ≠ vnetGsoTcpv4 ∧ v.gso ≠ vnetGsoTcpv6 ∧ v.gso ≠ vnetGsoUdpL4 then -1
  else if v.gso = vnetGsoUdpL4 ∧ v.gsoType &&& vnetGsoEcn ≠ 0 then -1
  else if v.gsoSize = 0 ∨ dataLen < v.hdrLen.toNat then -1
  else if v.needsCsum ∧ (dataLen ≤ v.csumStart.toNat ∨ dataLen < v.csumStart.toNat + v.csumOffset.toNat + 2) then -1
  else 1

/-- The loop of `gso_validate_ipv4_header` over the IPv4 options. -/
def gsoOptions (d : List Byte) (ihl : Nat) : Nat → Nat → Bool
  | 0, _ => true
  | n + 1, off =>
    if ihl ≤ off then true
    else
      let kind := getU8 d off
      if kind = 0 then true
      else if kind = 1 then gsoOptions d ihl n (off + 1)
      else if ihl < off + 2 then false
      else
        let len := (getU8 d (off + 1)).toNat
        if len < 2 ∨ ihl < off + len then false
        else if (kind = 131 ∨ kind = 137) ∧ (len < 3 ∨ (getU8 d (off + 2)).toNat ≤ len) then false
        else gsoOptions d ihl n (off + len)

/-- `gso_validate_ipv4_header`: the length of the header. -/
def gsoValidateIpv4Header (e : Endian) (d : List Byte) (proto : Byte) : Option Nat :=
  let ip4 := Ip4.ofBytes d
  let ihl := (ip4.verIhl &&& 0x0f).toNat * 4
  if d.length < 20 then none
  else if ip4.verIhl >>> 4 ≠ 4 ∨ ip4.proto ≠ proto ∨ ip4.length ≠ BitVec.ofNat 16 d.length ∨
      ip4.flagsOffset &&& (ip4FMask ||| ip4FMf) ≠ 0 then none
  else if ihl < 20 ∨ d.length < ihl ∨ ipChecksum e (d.take ihl) ≠ 0 ∨ validateIp4Addr ip4.src = some .drop ∨
      validateIp4Addr ip4.dest = some .drop then none
  else if !gsoOptions d ihl ihl 20 then none
  else some ihl

/-- The checks of an IPv6 header in front of a transport header of protocol `proto`. -/
def gsoValidIp6 (d : List Byte) (proto : Byte) : Bool :=
  let ip6 := Ip6.ofBytes d
  ip6.verTcFl >>> 28 = 6 ∧ ip6.nextHeader = proto ∧ ip6.payloadLength.toNat = d.length - 40 ∧
    validateIp6Addr ip6.src = none ∧ validateIp6Addr ip6.dest = none

/-- `gso_validate_transport_vnet`. -/
def gsoValidateTransportVnet (dataLen : Nat) (v : VnetHdr) (l3Len transportLen csumOffset : Nat) : Bool :=
  v.needsCsum ∧ v.flags &&& vnetDataValid = 0 ∧ v.csumStart.toNat = l3Len ∧ v.csumOffset.toNat = csumOffset ∧
    l3Len + transportLen ≤ v.hdrLen.toNat ∧ v.hdrLen.toNat ≤ dataLen

/-- `gso_validate_udp_segment_count`. -/
def gsoValidateUdpSegmentCount (payloadLen gsoSize : Nat) : Bool :=
  gsoSize ≠ 0 ∧ (if payloadLen = 0 then 1 else (payloadLen + gsoSize - 1) / gsoSize) ≤ 128

/-- The length of the TCP header at the front of some data. -/
def tcpHdrLen (l4 : List Byte) : Nat := (getU8 l4 12 >>> 4).toNat * 4

/-! ### Aggregates -/

/-- An IPv4 aggregate as `struct pkt` has it when an error is sent. -/
def gsoPkt4 (d : List Byte) (v : VnetHdr) (ihl : Nat) (proto : Byte) : Pkt4 := ⟨d.take ihl, d.drop ihl, proto, some v⟩

/-- An IPv6 aggregate as `struct pkt` has it when an error is sent. -/
def gsoPkt6 (d : List Byte) (v : VnetHdr) (proto : Byte) : Pkt6 := ⟨d.take 40, none, d.drop 40, proto, some v⟩

/-- The payload of the largest segment. -/
def maxSeg (payloadLen gsoSize : Nat) : Nat := if gsoSize < payloadLen then gsoSize else payloadLen

variable (g : Gcfg)

/-- `gso_map_6to4_with_icmp`: the source and the destination, or whether an error was sent. -/
def gsoMap6to4WithIcmp (p : Pkt6) : PktProg (Except Bool (In4 × In4)) :=
  if p.ip6.dest = g.localAddr6 then do
    hostSendIcmp6Error g 4 1 6 p
    return .error true
  else .call (.mapIp6ToIp4 p.ip6.dest false) fun
    | .error .reject => do
      hostSendIcmp6Error g 1 0 0 p
      return .error true
    | .error _ => .done (.error false)
    | .ok dst4 => .call (.mapIp6ToIp4 p.ip6.src true) fun
      | .error .reject => do
        hostSendIcmp6Error g 1 5 0 p
        return .error true
      | .error _ => .done (.error false)
      | .ok src4 => .done (.ok (src4, dst4))

/-- `gso_map_4to6_with_icmp`: the source and the destination, or whether an error was sent. -/
def gsoMap4to6WithIcmp (p : Pkt4) : PktProg (Except Bool (In6 × In6)) :=
  if p.ip4.dest = g.localAddr4 then do
    hostSendIcmp4Error g 3 2 0 p
    return .error true
  else .call (.mapIp4ToIp6 p.ip4.dest) fun
    | .error .reject => do
      hostSendIcmp4Error g 3 1 0 p
      return .error true
    | .error _ => .done (.error false)
    | .ok dst6 => .call (.mapIp4ToIp6 p.ip4.src) fun
      | .error .reject => do
        hostSendIcmp4Error g 3 10 0 p
        return .error true
      | .error _ => .done (.error false)
      | .ok src6 => .done (.ok (src6, dst6))

/-- An ICMP error in answer to an aggregate. -/
def gsoError4 (type code : Byte) (word : BitVec 32) (p : Pkt4) : PktProg Bool := do
  hostSendIcmp4Error g type code word p
  return true

/-- An ICMPv6 error in answer to an aggregate. -/
def gsoError6 (type code : Byte) (word : BitVec 32) (p : Pkt6) : PktProg Bool := do
  hostSendIcmp6Error g type code word p
  return true

/-- The largest segment has DF set and does not fit the MTU: `l3Len` bytes of IPv4 header are counted, and `l4Len` bytes
of transport header. -/
def gsoTooBig4 (p : Pkt4) (l3Len l4Len gsoSize : Nat) : Bool :=
  p.ip4.flagsOffset &&& ip4FDf ≠ 0 ∧ mtuAdj < g.mtu ∧
    g.mtu - mtuAdj < l3Len + l4Len + maxSeg (p.data.drop l4Len).length gsoSize

/-! ### Headers -/

/-- The IPv4 header of a packet of `len` bytes. -/
def gsoIp4 (e : Endian) (tos ttl proto : Byte) (ident flagsOffset : BitVec 16) (src dest : In4) (len : Nat) : Ip4 :=
  Ip4.withCksum e
    { verIhl := 0x45
      tos := tos
      length := BitVec.ofNat 16 len
      ident := ident
      flagsOffset := flagsOffset
      ttl := ttl
      proto := proto
      cksum := 0
      src := src
      dest := dest }

/-- The IPv6 header in front of `len` bytes. -/
def gsoIp6 (tos hopLimit proto : Byte) (src dest : In6) (len : Nat) : Ip6 where
  verTcFl := 0x60000000 ||| tos.setWidth 32 <<< 20
  payloadLength := BitVec.ofNat 16 len
  nextHeader := proto
  hopLimit := hopLimit
  src := src
  dest := dest

/-- `gso_normalize_tcp_output`. -/
def gsoNormalizeTcpOutput (v : VnetHdr) (payloadLen : Nat) : VnetHdr :=
  if payloadLen ≤ v.gsoSize.toNat then { v with gsoType := vnetGsoNone, gsoSize := 0 } else v

/-- The virtio header of a TCP aggregate written as `gsoType`, its network header `old` bytes long before and `new`
bytes after. -/
def gsoTcpVhdr (v : VnetHdr) (gsoType : Byte) (old new : BitVec 16) : VnetHdr :=
  { v with
    flags := v.flags ||| vnetNeedsCsum
    gsoType := gsoType ||| (v.gsoType &&& vnetGsoEcn)
    hdrLen := v.hdrLen + new - old
    csumStart := v.csumStart + new - old }

/-- The virtio header of a UDP aggregate behind a network header of `l3Len` bytes. -/
def gsoUdpVhdr (v : VnetHdr) (l3Len : BitVec 16) : VnetHdr :=
  { v with
    flags := v.flags ||| vnetNeedsCsum
    gsoType := vnetGsoUdpL4 ||| (v.gsoType &&& vnetGsoEcn)
    hdrLen := l3Len + 8
    csumStart := l3Len
    csumOffset := 6 }

/-- `seed == 0 ? 0xffff : seed` in the checksum of a UDP header. -/
def gsoUdpSeed (udp : List Byte) (seed : BitVec 16) : List Byte := put udp 6 (be16 (nonzeroCksum seed))

/-! ### Cutting in software -/

/-- `gso_df0_segments`: the identifications the emitter will use. -/
def gsoDf0Segments (payloadLen gsoSize headerLen : Nat) : BitVec 16 :=
  if payloadLen = 0 then 1
  else if headerLen + gsoSize ≤ 1260 then BitVec.ofNat 16 ((payloadLen + gsoSize - 1) / gsoSize)
  else
    let tail := payloadLen % gsoSize
    if tail ≠ 0 ∧ headerLen + tail ≤ 1260 then 1 else 0

/-- How a segment is built from its offset, whether it is the last one, the next identification and its payload: the
packet with the identification after it, unless the packet is too long. -/
abbrev SegmentBuilder := Nat → Bool → BitVec 16 → List Byte → Option (List Byte × BitVec 16)

/-- The loop of the software emitters, at `offset` with `payload` left. -/
def segmentLoop (gsoSize : Nat) (build : SegmentBuilder) : Nat → Nat → BitVec 16 → List Byte → PktProg Bool
  | 0, _, _, _ => .done true
  | n + 1, offset, nextId, payload =>
    let seg := payload.take gsoSize
    let rest := payload.drop gsoSize
    match build offset rest.isEmpty nextId seg with
    | none => .done false
    | some (packet, nextId) =>
      .call (.write none packet) fun ret =>
        if ret ≤ 0 then .done false
        else if rest.isEmpty then .done true
        else segmentLoop gsoSize build n (offset + seg.length) nextId rest

/-- The TCP header of the segment at `offset`: FIN and PSH on the last segment only, CWR on the first one only. -/
def TcpHdr.segment (h : TcpHdr) (offset : Nat) (isLast : Bool) : TcpHdr :=
  let flags := if isLast then h.flags else h.flags &&& ~~~(tcpFlagFin ||| tcpFlagPsh)
  { h with
    seq := h.seq + BitVec.ofNat 32 offset
    flags := if 0 < offset then flags &&& ~~~tcpFlagCwr else flags
    cksum := 0 }

/-- The checksum of a segment. -/
def segmentCksum (e : Endian) (l4 seg : List Byte) (pseudo : BitVec 16) : BitVec 16 :=
  onesAdd (onesAdd (ipChecksum e l4) (if seg = [] then 0 else ipChecksum e seg)) pseudo

/-- The header of an IPv4 segment of `len` bytes with the identification after it: DF is clear up to 1260 bytes. -/
def segmentIp4 (e : Endian) (p : Pkt6) (src4 dst4 : In4) (nextId : BitVec 16) (len : Nat) : Ip4 × BitVec 16 :=
  if len ≤ 1260 then (gsoIp4 e p.ip6.tc (p.ip6.hopLimit - 1) p.dataProto nextId 0 src4 dst4 len, nextId + 1)
  else (gsoIp4 e p.ip6.tc (p.ip6.hopLimit - 1) p.dataProto 0 ip4FDf src4 dst4 len, nextId)

/-- The loop body of `gso_software_segment_and_send_6to4`. -/
def buildTcp6to4 (e : Endian) (p : Pkt6) (tcp : TcpHdr) (l4Len : Nat) (src4 dst4 : In4) : SegmentBuilder :=
  fun offset isLast nextId seg =>
    let len := 20 + (l4Len + seg.length)
    if 65535 < len then none
    else
      let tcp := tcp.segment offset isLast
      let r := segmentIp4 e p src4 dst4 nextId len
      let cksum := segmentCksum e tcp.toBytes seg (ip4Checksum e r.1 (BitVec.ofNat 32 (l4Len + seg.length)) 6)
      some (r.1.toBytes ++ { tcp with cksum := htons e cksum }.toBytes ++ seg, r.2)

/-- The loop body of `gso_software_segment_and_send_4to6`. -/
def buildTcp4to6 (e : Endian) (p : Pkt4) (tcp : TcpHdr) (l4Len : Nat) (src6 dst6 : In6) : SegmentBuilder :=
  fun offset isLast nextId seg =>
    let len := l4Len + seg.length
    if 40 + 65535 < 40 + len then none
    else
      let tcp := tcp.segment offset isLast
      let ip6 := gsoIp6 p.ip4.tos (p.ip4.ttl - 1) 6 src6 dst6 len
      let cksum := segmentCksum e tcp.toBytes seg (ip6Checksum e ip6 (BitVec.ofNat 32 len) 6)
      some (ip6.toBytes ++ { tcp with cksum := htons e cksum }.toBytes ++ seg, nextId)

/-- The loop body of `gso_software_segment_and_send_udp_6to4`. -/
def buildUdp6to4 (e : Endian) (p : Pkt6) (udp : UdpHdr) (src4 dst4 : In4) : SegmentBuilder :=
  fun _ _ nextId seg =>
    let total := 8 + seg.length
    if 65535 < total ∨ 65535 < 20 + total then none
    else
      let udp : UdpHdr := ⟨udp.srcPort, udp.dstPort, BitVec.ofNat 16 total, 0⟩
      let r := segmentIp4 e p src4 dst4 nextId (20 + total)
      let cksum := segmentCksum e udp.toBytes seg (ip4Checksum e r.1 (BitVec.ofNat 32 total) 17)
      some (r.1.toBytes ++ { udp with cksum := htons e (nonzeroCksum cksum) }.toBytes ++ seg, r.2)

/-- The loop body of `gso_software_segment_and_send_udp_4to6`. -/
def buildUdp4to6 (e : Endian) (p : Pkt4) (udp : UdpHdr) (src6 dst6 : In6) : SegmentBuilder :=
  fun _ _ nextId seg =>
    let total := 8 + seg.length
    if 40 + 65535 < 40 + total then none
    else
      let udp : UdpHdr := ⟨udp.srcPort, udp.dstPort, BitVec.ofNat 16 total, 0⟩
      let ip6 := gsoIp6 p.ip4.tos (p.ip4.ttl - 1) 17 src6 dst6 total
      let cksum := segmentCksum e udp.toBytes seg (ip6Checksum e ip6 (BitVec.ofNat 32 total) 17)
      some (ip6.toBytes ++ { udp with cksum := htons e (nonzeroCksum cksum) }.toBytes ++ seg, nextId)

/-- The identifications a software emitter reserves. -/
def reserveSegments (count : BitVec 16) : PktProg (BitVec 16) :=
  if count = 0 then .done 0 else .call (.reserveIp4Ident count) .done

end Tayga
