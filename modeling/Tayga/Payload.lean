import Tayga.Packet

/-!
# Translating headers and payloads

`xlate_header_4to6`, `xlate_header_6to4` and the two payload functions.  The payload functions do the same to the
transport header, each with its own pseudo-header: `xlatePayload` is what they share, with a `PayloadCtx` for what
differs.
-/

namespace Tayga

open Program

/-! ### Words of the payload as the machine loads them -/

/-- `get_u16`. -/
def getU16 (e : Endian) (d : List Byte) (i : Nat) : BitVec 16 := htons e (getBe16 d i)

/-- `put_u16`. -/
def putU16 (e : Endian) (d : List Byte) (i : Nat) (v : BitVec 16) : List Byte := put d i (be16 (htons e v))

/-! ### Headers -/

/-- `xlate_header_4to6`. -/
def xlateHeader4to6 (p : Pkt4) (src dest : In6) (payloadLength : Nat) : Ip6 where
  verTcFl := 0x60000000 ||| p.ip4.tos.setWidth 32 <<< 20
  payloadLength := BitVec.ofNat 16 payloadLength
  nextHeader := if p.dataProto = 1 then 58 else p.dataProto
  hopLimit := p.ip4.ttl
  src := src
  dest := dest

/-- The identification, flags and offset `xlate_header_6to4` gives a packet. -/
def xlateIdent6to4 (p : Pkt6) (payloadLength : Nat) : PktProg (BitVec 16 × BitVec 16) :=
  match p.frag with
  | some frag =>
    let flags := frag.offsetFlags >>> 3
    let flags := if frag.offsetFlags &&& ip6FMf ≠ 0 then flags ||| ip4FMf else flags
    -- DF is always cleared
    .done (frag.ident.setWidth 16, flags &&& ~~~ip4FDf)
  | none =>
    if 20 + payloadLength ≤ 1260 then .call (.reserveIp4Ident 1) fun ident => .done (ident, 0)
    else .done (0, ip4FDf)

/-- `xlate_header_6to4`. -/
def xlateHeader6to4 (p : Pkt6) (src dest : In4) (payloadLength : Nat) : PktProg Ip4 := do
  let r ← xlateIdent6to4 p payloadLength
  return {
    verIhl := 0x45
    tos := p.ip6.tc
    length := BitVec.ofNat 16 (20 + payloadLength)
    ident := r.1
    flagsOffset := r.2
    ttl := p.ip6.hopLimit
    proto := if p.dataProto = 58 then 1 else p.dataProto
    cksum := 0
    src := src
    dest := dest }

/-! ### Payloads -/

/-- What a payload function reads beside the payload: whether the packet is a fragment and not the first one, the
offsets between which a partial checksum has to lie, the checksum of the new pseudo-header, the seed of a partial
checksum, the change of the addresses, and the ICMP protocol with what is done to the ICMP header. -/
structure PayloadCtx where
  fragmented : Bool
  noninitial : Bool
  l4Start : Nat
  l4End : Nat
  pseudo : BitVec 32 → Byte → BitVec 16
  seed : Byte → BitVec 32 → BitVec 16
  adjust : BitVec 16
  icmpProto : Byte
  icmp : Icmp → Icmp

/-- A payload with its virtio header. -/
abbrev Payload := List Byte × Option VnetHdr

/-- The virtio header asks for the transport checksum to be completed. -/
def needsCsum (vhdr : Option VnetHdr) : Bool := vhdr.any VnetHdr.needsCsum

/-- Clear `VIRTIO_NET_HDR_F_NEEDS_CSUM`. -/
def clearNeedsCsum (vhdr : Option VnetHdr) : Option VnetHdr :=
  vhdr.map fun v => { v with flags := v.flags &&& ~~~vnetNeedsCsum }

/-- `ck == 0 ? 0xffff : ck` -/
def nonzeroCksum (ck : BitVec 16) : BitVec 16 := if ck = 0 then 0xffff else ck

variable (g : Gcfg) (x : PayloadCtx)

/-- The checksum over a payload and the new pseudo-header. -/
def PayloadCtx.cksum (proto : Byte) (d : List Byte) : BitVec 16 :=
  onesAdd (ipChecksum g.endian d) (x.pseudo (BitVec.ofNat 32 d.length) proto)

/-- The offsets of a partial checksum are those of the transport header. -/
def PayloadCtx.csumPlaced (csumOff : Nat) (vhdr : Option VnetHdr) : Bool :=
  vhdr.all fun v => v.csumStart.toNat = x.l4Start && v.csumOffset.toNat = csumOff &&
    v.csumStart.toNat + v.csumOffset.toNat + 2 ≤ x.l4End

/-- A partial checksum: completed here, or left to the device with a new seed. -/
def PayloadCtx.partialCsum (proto : Byte) (csumOff : Nat) (fix : BitVec 16 → BitVec 16) (p : Payload) : Payload :=
  if g.vnetHdrSz = 0 then
    let d := putU16 g.endian p.1 csumOff 0
    (putU16 g.endian d csumOff (fix (x.cksum g proto d)), clearNeedsCsum p.2)
  else (put p.1 csumOff (be16 (x.seed proto (BitVec.ofNat 32 p.1.length))), p.2)

/-- The incremental update for the new addresses. -/
def PayloadCtx.adjustCsum (csumOff : Nat) (fix : BitVec 16 → BitVec 16) (p : Payload) : Payload :=
  (putU16 g.endian p.1 csumOff (fix (onesAdd (getU16 g.endian p.1 csumOff) x.adjust)), p.2)

/-- UDP. -/
def PayloadCtx.udp (em : Bool) (p : Payload) : Option Payload :=
  if p.1.length < 8 then if em then some p else none
  else if needsCsum p.2 then
    let udpLen := (getBe16 p.1 4).toNat
    if !x.csumPlaced 6 p.2 then none
    else if udpLen < 8 ∨ p.1.length < udpLen then none
    else some (x.partialCsum g 17 6 nonzeroCksum p)
  else if getU16 g.endian p.1 6 = 0 then
    if em then if g.udpCksumMode = .drop then none else some p
    else match g.udpCksumMode with
      | .drop => none
      | .fwd => some p
      | .calc => some (putU16 g.endian p.1 6 (nonzeroCksum (x.cksum g 17 p.1)), p.2)
  else some (x.adjustCsum g 6 nonzeroCksum p)

/-- TCP. -/
def PayloadCtx.tcp (em : Bool) (p : Payload) : Option Payload :=
  if p.1.length < 20 then if em then some p else none
  else if needsCsum p.2 then
    let doff := (getU8 p.1 12 >>> 4).toNat * 4
    if !x.csumPlaced 16 p.2 then none
    else if doff < 20 ∨ p.1.length < doff then none
    else some (x.partialCsum g 6 16 id p)
  else some (x.adjustCsum g 16 id p)

/-- DCCP, of at least 12 bytes, and UDP-Lite, of at least 8 and never without a checksum. -/
def PayloadCtx.dccpUdplite (proto : Byte) (em : Bool) (p : Payload) : Option Payload :=
  if p.1.length < (if proto = 33 then 12 else 8) then if em then some p else none
  else if needsCsum p.2 then none
  else if proto = 136 ∧ getU16 g.endian p.1 6 = 0 then if em then some p else none
  else some (x.adjustCsum g 6 (if proto = 136 then nonzeroCksum else id) p)

/-- What `xlate_payload_4to6` and `xlate_payload_6to4` share. -/
def xlatePayload (proto : Byte) (em : Bool) (p : Payload) : Option Payload :=
  if x.fragmented ∧ needsCsum p.2 then none
  else if x.noninitial then some p
  else if proto = x.icmpProto then some (put p.1 0 (x.icmp (Icmp.ofBytes p.1)).toBytes, p.2)
  else if proto = 17 then x.udp g em p
  else if proto = 6 then x.tcp g em p
  else if proto = 33 ∨ proto = 136 then x.dccpUdplite g proto em p
  else if needsCsum p.2 then none
  else some p

/-- The ICMP header of `xlate_payload_4to6`: `ck` is the checksum of the new pseudo-header. -/
def icmp4to6 (e : Endian) (ck : BitVec 16) (icmp : Icmp) : Icmp :=
  let cksum := onesAdd (htons e icmp.cksum) ck
  let type : Byte := if icmp.type = 8 then 128 else 129
  let delta : BitVec 16 := if icmp.type = 8 then 128 - 8 else 129 - 0
  { icmp with
    type := type
    cksum := htons e (onesAdd cksum (~~~bigLittle e (delta <<< 8) delta)) }

/-- The ICMP header of `xlate_payload_6to4`: `ck` is the complement of the checksum of the old pseudo-header. -/
def icmp6to4 (e : Endian) (ck : BitVec 16) (icmp : Icmp) : Icmp :=
  let cksum := onesAdd (htons e icmp.cksum) ck
  let type : Byte := if icmp.type = 128 then 8 else 0
  let delta : BitVec 16 := if icmp.type = 128 then 128 - 8 else 129 - 0
  { icmp with
    type := type
    cksum := htons e (onesAdd cksum (bigLittle e (delta <<< 8) delta)) }

/-- What `xlate_payload_4to6` reads beside the payload. -/
def payloadCtx4to6 (p : Pkt4) (ip6 : Ip6) : PayloadCtx where
  fragmented := p.ip4.flagsOffset &&& (ip4FMask ||| ip4FMf) ≠ 0
  noninitial := p.ip4.flagsOffset &&& ip4FMask ≠ 0
  l4Start := p.headerLen
  l4End := p.ip4.length.toNat
  pseudo := ip6Checksum g.endian ip6
  seed := gsoCalcPseudo6 ip6.src ip6.dest
  adjust := ~~~convertCksum g.endian ip6 p.ip4
  icmpProto := 1
  icmp := icmp4to6 g.endian (ip6Checksum g.endian ip6 (p.ip4.length.setWidth 32 - BitVec.ofNat 32 p.headerLen) 58)

/-- `xlate_payload_4to6`. -/
def xlatePayload4to6 (p : Pkt4) (ip6 : Ip6) (em : Bool) : Option Pkt4 :=
  (xlatePayload g (payloadCtx4to6 g p ip6) p.dataProto em (p.data, p.vhdr)).map fun r =>
    { p with data := r.1, vhdr := r.2 }

/-- What `xlate_payload_6to4` reads beside the payload. -/
def payloadCtx6to4 (p : Pkt6) (ip4 : Ip4) : PayloadCtx where
  fragmented := p.frag.any Ip6Frag.isFragment
  noninitial := p.frag.any fun f => f.offsetFlags &&& ip6FMask ≠ 0
  l4Start := 40 + p.headerLen
  l4End := 40 + p.ip6.payloadLength.toNat
  pseudo := ip4Checksum g.endian ip4
  seed := gsoCalcPseudo4 ip4.src ip4.dest
  adjust := convertCksum g.endian p.ip6 ip4
  icmpProto := 58
  icmp := icmp6to4 g.endian (~~~ip6Checksum g.endian p.ip6
    (p.ip6.payloadLength.setWidth 32 - BitVec.ofNat 32 p.headerLen) 58)

/-- `xlate_payload_6to4`. -/
def xlatePayload6to4 (p : Pkt6) (ip4 : Ip4) (em : Bool) : Option Pkt6 :=
  (xlatePayload g (payloadCtx6to4 g p ip4) p.dataProto em (p.data, p.vhdr)).map fun r =>
    { p with data := r.1, vhdr := r.2 }

end Tayga
