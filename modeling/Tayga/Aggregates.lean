import Tayga.Gso

/-!
# Aggregates

The eight entry points of `gso.c`: aggregates of TCP and UDP segments from either family, translated as they are
(`gso_translate_*`) or cut in software (`gso_software_segment_and_send_*`).
-/

namespace Tayga

open Program

variable (g : Gcfg) (d : List Byte)

/-! ### Software emitters -/

/-- `gso_size == 0` stands for one segment with all of the payload. -/
def effectiveGsoSize (v : VnetHdr) (payloadLen : Nat) : Nat :=
  if v.gsoSize = 0 then (if 0 < payloadLen then payloadLen else 1) else v.gsoSize.toNat

/-- `gso_software_segment_and_send_6to4`. -/
def gsoSoftwareSegmentAndSend6to4 : Option VnetHdr → PktProg Bool
  | none => .done false
  | some v =>
    let p := gsoPkt6 d v 6
    let l4Len := tcpHdrLen p.data
    if v.gso ≠ vnetGsoTcpv6 ∨ gsoValidateHeader d.length v ≤ 0 then .done false
    else if d.length < 40 + 20 ∨ !gsoValidIp6 d 6 then .done false
    else if l4Len < 20 ∨ d.length < 40 + l4Len then .done false
    else if v.hdrLen.toNat < 40 + l4Len ∨ v.needsCsum ∧ !gsoValidateTransportVnet d.length v 40 l4Len 16 then
      .done false
    else
      let payload := p.data.drop l4Len
      let gsoSize := effectiveGsoSize v payload.length
      if 0 < g.mtu ∧ g.mtu < 40 + l4Len + maxSeg payload.length gsoSize then
        gsoError6 g 2 0 (BitVec.ofNat 32 g.mtu) p
      else if p.ip6.hopLimit ≤ 1 then gsoError6 g 3 0 0 p
      else do
        match ← gsoMap6to4WithIcmp g p with
        | .error handled => return handled
        | .ok (src4, dst4) =>
          let nextId ← reserveSegments (gsoDf0Segments payload.length gsoSize (20 + l4Len))
          let tcp := TcpHdr.ofBytes (p.data.take l4Len)
          segmentLoop gsoSize (buildTcp6to4 g.endian p tcp l4Len src4 dst4) (payload.length + 1) 0 nextId payload

/-- `gso_software_segment_and_send_4to6`. -/
def gsoSoftwareSegmentAndSend4to6 : Option VnetHdr → PktProg Bool
  | none => .done false
  | some v =>
    if v.gso ≠ vnetGsoTcpv4 ∨ gsoValidateHeader d.length v ≤ 0 then .done false
    else if d.length < 20 + 20 then .done false
    else match gsoValidateIpv4Header g.endian d 6 with
      | none => .done false
      | some ihl =>
        let p := gsoPkt4 d v ihl 6
        let l4Len := tcpHdrLen p.data
        if d.length < ihl + 20 ∨ l4Len < 20 ∨ d.length < ihl + l4Len then .done false
        else if v.hdrLen.toNat < ihl + l4Len ∨ v.needsCsum ∧ !gsoValidateTransportVnet d.length v ihl l4Len 16 then
          .done false
        else
          let payload := p.data.drop l4Len
          let gsoSize := effectiveGsoSize v payload.length
          if gsoTooBig4 g p ihl l4Len gsoSize then
            gsoError4 g 3 4 (BitVec.ofNat 32 (g.mtu - mtuAdj)) p
          else if p.ip4.ttl ≤ 1 then gsoError4 g 11 0 0 p
          else do
            match ← gsoMap4to6WithIcmp g p with
            | .error handled => return handled
            | .ok (src6, dst6) =>
              let tcp := TcpHdr.ofBytes (p.data.take l4Len)
              segmentLoop gsoSize (buildTcp4to6 g.endian p tcp l4Len src6 dst6) (payload.length + 1) 0 0 payload

/-- The length fields and the segment size of a UDP aggregate. -/
def gsoUdpSized (udp : List Byte) (gsoSize : Nat) : Bool :=
  (UdpHdr.ofBytes udp).length.toNat = udp.length ∧ gsoSize ≤ 65535 - 8 ∧
    gsoValidateUdpSegmentCount (udp.length - 8) gsoSize

/-- `gso_software_segment_and_send_udp_6to4`. -/
def gsoSoftwareSegmentAndSendUdp6to4 : Option VnetHdr → PktProg Bool
  | none => .done false
  | some v =>
    let p := gsoPkt6 d v 17
    if v.gso ≠ vnetGsoUdpL4 ∨ gsoValidateHeader d.length v ≤ 0 then .done false
    else if d.length < 40 + 8 ∨ !gsoValidateTransportVnet d.length v 40 8 6 ∨ !gsoValidIp6 d 17 then .done false
    else
      let payload := p.data.drop 8
      let gsoSize := effectiveGsoSize v payload.length
      if !gsoUdpSized p.data gsoSize then .done false
      else if 0 < g.mtu ∧ g.mtu < 40 + 8 + maxSeg payload.length gsoSize then
        gsoError6 g 2 0 (BitVec.ofNat 32 g.mtu) p
      else if p.ip6.hopLimit ≤ 1 then gsoError6 g 3 0 0 p
      else do
        match ← gsoMap6to4WithIcmp g p with
        | .error handled => return handled
        | .ok (src4, dst4) =>
          let nextId ← reserveSegments (gsoDf0Segments payload.length gsoSize (20 + 8))
          segmentLoop gsoSize (buildUdp6to4 g.endian p (UdpHdr.ofBytes p.data) src4 dst4) (payload.length + 1) 0 nextId
            payload

/-- `gso_software_segment_and_send_udp_4to6`. -/
def gsoSoftwareSegmentAndSendUdp4to6 : Option VnetHdr → PktProg Bool
  | none => .done false
  | some v =>
    if v.gso ≠ vnetGsoUdpL4 ∨ gsoValidateHeader d.length v ≤ 0 then .done false
    else match gsoValidateIpv4Header g.endian d 17 with
      | none => .done false
      | some ihl =>
        let p := gsoPkt4 d v ihl 17
        if d.length < ihl + 8 ∨ !gsoValidateTransportVnet d.length v ihl 8 6 then .done false
        else if p.ip4.ttl ≤ 1 then gsoError4 g 11 0 0 p
        else
          let payload := p.data.drop 8
          let gsoSize := effectiveGsoSize v payload.length
          if !gsoUdpSized p.data gsoSize then .done false
          else if gsoTooBig4 g p ihl 8 gsoSize then
            gsoError4 g 3 4 (BitVec.ofNat 32 (g.mtu - mtuAdj)) p
          else do
            match ← gsoMap4to6WithIcmp g p with
            | .error handled => return handled
            | .ok (src6, dst6) =>
              segmentLoop gsoSize (buildUdp4to6 g.endian p (UdpHdr.ofBytes p.data) src6 dst6) (payload.length + 1) 0 0
                payload

/-! ### TCP -/

/-- The head of a split aggregate: all full segments, with neither FIN nor PSH, and DF set. -/
def gsoTcpHead (v : VnetHdr) (p : Pkt6) (l4Len headLen : Nat) (src4 dst4 : In4) : Option VnetHdr × List Byte :=
  let l4 := p.data.take (l4Len + headLen)
  let tcp := TcpHdr.ofBytes (l4.take l4Len)
  let tcp := { tcp with
    flags := tcp.flags &&& ~~~(tcpFlagFin ||| tcpFlagPsh)
    cksum := gsoCalcPseudo4 src4 dst4 6 (BitVec.ofNat 32 l4.length) }
  let out := (gsoIp4 g.endian p.ip6.tc (p.ip6.hopLimit - 1) 6 0 ip4FDf src4 dst4 (20 + l4.length)).toBytes ++
    tcp.toBytes ++ l4.drop l4Len
  let vhdr := gsoTcpVhdr v vnetGsoTcpv4 40 20
  let vhdr := if out.length < vhdr.hdrLen.toNat then { vhdr with hdrLen := BitVec.ofNat 16 out.length } else vhdr
  (some (gsoNormalizeTcpOutput vhdr headLen), out)

/-- The tail of a split aggregate: one short segment with DF clear. -/
def gsoTcpTail (p : Pkt6) (l4Len headLen : Nat) (src4 dst4 : In4) (ident : BitVec 16) :
    Option VnetHdr × List Byte :=
  let orig := TcpHdr.ofBytes (p.data.take l4Len)
  let seg := p.data.drop (l4Len + headLen)
  let tcp := { orig with
    seq := orig.seq + BitVec.ofNat 32 headLen
    flags := orig.flags &&& ~~~tcpFlagCwr
    cksum := 0 }
  let ip4 := gsoIp4 g.endian p.ip6.tc (p.ip6.hopLimit - 1) 6 ident 0 src4 dst4 (20 + (l4Len + seg.length))
  let total := BitVec.ofNat 32 (l4Len + seg.length)
  if 0 < g.vnetHdrSz then
    let vhdr : VnetHdr := { VnetHdr.zero with
      flags := vnetNeedsCsum
      gsoType := vnetGsoNone
      hdrLen := BitVec.ofNat 16 (20 + l4Len)
      csumStart := 20
      csumOffset := 16 }
    (some vhdr, ip4.toBytes ++ { tcp with cksum := gsoCalcPseudo4 src4 dst4 6 total }.toBytes ++ seg)
  else
    let cksum := onesAdd (onesAdd (ipChecksum g.endian tcp.toBytes) (ipChecksum g.endian seg))
      (ip4Checksum g.endian ip4 total 6)
    (none, ip4.toBytes ++ { tcp with cksum := htons g.endian cksum }.toBytes ++ seg)

/-- The identification and the flags of an aggregate of IPv4 packets of up to `maxLen` bytes. -/
def gsoIdent (maxLen payloadLen gsoSize : Nat) : PktProg (BitVec 16 × BitVec 16) :=
  if maxLen ≤ 1260 then
    let segments := if payloadLen = 0 then 1 else (payloadLen + gsoSize - 1) / gsoSize
    .call (.reserveIp4Ident (BitVec.ofNat 16 segments)) fun ident => .done (ident, 0)
  else .done (0, ip4FDf)

/-- `gso_translate_tcp_6to4`. -/
def gsoTranslateTcp6to4 : Option VnetHdr → PktProg Bool
  | none => .done false
  | some v =>
    let p := gsoPkt6 d v 6
    let l4Len := tcpHdrLen p.data
    if v.gso ≠ vnetGsoTcpv6 then .done false
    else if gsoValidateHeader d.length v ≤ 0 then .done false
    else if d.length < 40 + 20 ∨ !gsoValidIp6 d 6 then .done false
    else if l4Len < 20 ∨ d.length < 40 + l4Len ∨ !gsoValidateTransportVnet d.length v 40 l4Len 16 then .done false
    else
      let payload := p.data.drop l4Len
      let gsoSize := v.gsoSize.toNat
      let fullLen := 20 + l4Len + gsoSize
      let tailLen := payload.length % gsoSize
      if gsoSize = 0 then .done false
      else if 0 < g.mtu ∧ g.mtu < 40 + l4Len + maxSeg payload.length gsoSize then
        gsoError6 g 2 0 (BitVec.ofNat 32 g.mtu) p
      else if p.ip6.hopLimit ≤ 1 then gsoError6 g 3 0 0 p
      else if 65535 < 20 + l4Len + payload.length then gsoSoftwareSegmentAndSend6to4 g d (some v)
      else do
        match ← gsoMap6to4WithIcmp g p with
        | .error handled => return handled
        | .ok (src4, dst4) =>
          -- full segments with DF set, a tail with DF clear
          if 1260 < fullLen ∧ 0 < tailLen ∧ 20 + l4Len + tailLen ≤ 1260 ∧ gsoSize < payload.length then
            let headLen := payload.length / gsoSize * gsoSize
            let head := gsoTcpHead g v p l4Len headLen src4 dst4
            emit head.1 head.2
            let ident ← ask (.reserveIp4Ident 1)
            let tail := gsoTcpTail g p l4Len headLen src4 dst4 ident
            emit tail.1 tail.2
            return true
          else
            let r ← gsoIdent (20 + l4Len + maxSeg payload.length gsoSize) payload.length gsoSize
            let seed := gsoCalcPseudo4 src4 dst4 6 (BitVec.ofNat 32 p.data.length)
            let ip4 := gsoIp4 g.endian p.ip6.tc (p.ip6.hopLimit - 1) 6 r.1 r.2 src4 dst4 (20 + p.data.length)
            let vhdr := gsoNormalizeTcpOutput (gsoTcpVhdr v vnetGsoTcpv4 40 20) payload.length
            emit (some vhdr) (ip4.toBytes ++ put p.data 16 (be16 seed))
            return true

/-- `gso_translate_tcp_4to6`. -/
def gsoTranslateTcp4to6 : Option VnetHdr → PktProg Bool
  | none => .done false
  | some v =>
    if v.gso ≠ vnetGsoTcpv4 then .done false
    else if gsoValidateHeader d.length v ≤ 0 then .done false
    else if d.length < 20 + 20 then .done false
    else match gsoValidateIpv4Header g.endian d 6 with
      | none => .done false
      | some ihl =>
        let p := gsoPkt4 d v ihl 6
        let l4Len := tcpHdrLen p.data
        if !v.needsCsum then .done false
        else if l4Len < 20 ∨ d.length < ihl + l4Len ∨ !gsoValidateTransportVnet d.length v ihl l4Len 16 then
          .done false
        else
          let payload := p.data.drop l4Len
          let gsoSize := v.gsoSize.toNat
          if gsoTooBig4 g p 20 l4Len gsoSize then
            gsoError4 g 3 4 (BitVec.ofNat 32 (g.mtu - mtuAdj)) p
          else if p.ip4.ttl ≤ 1 then gsoError4 g 11 0 0 p
          else do
            match ← gsoMap4to6WithIcmp g p with
            | .error handled => return handled
            | .ok (src6, dst6) =>
              let seed := gsoCalcPseudo6 src6 dst6 6 (BitVec.ofNat 32 p.data.length)
              let ip6 := gsoIp6 p.ip4.tos (p.ip4.ttl - 1) 6 src6 dst6 p.data.length
              let vhdr := gsoNormalizeTcpOutput (gsoTcpVhdr v vnetGsoTcpv6 (BitVec.ofNat 16 ihl) 40) payload.length
              emit (some vhdr) (ip6.toBytes ++ put p.data 16 (be16 seed))
              return true

/-! ### UDP -/

/-- `gso_translate_udp_6to4`. -/
def gsoTranslateUdp6to4 : Option VnetHdr → PktProg Bool
  | none => .done false
  | some v =>
    let p := gsoPkt6 d v 17
    if v.gso ≠ vnetGsoUdpL4 then .done false
    else if gsoValidateHeader d.length v ≤ 0 then .done false
    else if d.length < 40 + 8 ∨ !gsoValidIp6 d 17 ∨ !gsoValidateTransportVnet d.length v 40 8 6 then .done false
    else if (UdpHdr.ofBytes p.data).length.toNat ≠ p.data.length then .done false
    else if p.ip6.hopLimit ≤ 1 then gsoError6 g 3 0 0 p
    else
      let payload := p.data.drop 8
      let gsoSize := v.gsoSize.toNat
      let full := payload.length / gsoSize
      let tailLen := payload.length % gsoSize
      let maxLen := 20 + 8 + if full ≠ 0 then gsoSize else payload.length
      if !gsoUdpSized p.data gsoSize then .done false
      else if 0 < g.mtu ∧ g.mtu < 40 + 8 + (if full ≠ 0 then gsoSize else payload.length) then
        gsoError6 g 2 0 (BitVec.ofNat 32 g.mtu) p
      else if 65535 < maxLen then .done false
      -- no segmentation of UDP in the kernel, or full segments and the tail with different DF
      else if !g.tunHasUso ∨ 65535 < 20 + p.data.length ∨
          full ≠ 0 ∧ tailLen ≠ 0 ∧ decide (maxLen ≤ 1260) ≠ decide (20 + 8 + tailLen ≤ 1260) then
        gsoSoftwareSegmentAndSendUdp6to4 g d (some v)
      else do
        match ← gsoMap6to4WithIcmp g p with
        | .error handled => return handled
        | .ok (src4, dst4) =>
          let r ← gsoIdent maxLen payload.length gsoSize
          let seed := gsoCalcPseudo4 src4 dst4 17 (BitVec.ofNat 32 p.data.length)
          let ip4 := gsoIp4 g.endian p.ip6.tc (p.ip6.hopLimit - 1) 17 r.1 r.2 src4 dst4 (20 + p.data.length)
          emit (some (gsoUdpVhdr v 20)) (ip4.toBytes ++ gsoUdpSeed p.data seed)
          return true

/-- `gso_translate_udp_4to6`. -/
def gsoTranslateUdp4to6 : Option VnetHdr → PktProg Bool
  | none => .done false
  | some v =>
    if v.gso ≠ vnetGsoUdpL4 then .done false
    else if gsoValidateHeader d.length v ≤ 0 then .done false
    else if d.length < 20 + 8 then .done false
    else match gsoValidateIpv4Header g.endian d 17 with
      | none => .done false
      | some ihl =>
        let p := gsoPkt4 d v ihl 17
        if d.length < ihl + 8 ∨ !gsoValidateTransportVnet d.length v ihl 8 6 then .done false
        else if p.ip4.ttl ≤ 1 then gsoError4 g 11 0 0 p
        else if 65535 < p.data.length then .done false
        else
          let gsoSize := v.gsoSize.toNat
          if !gsoUdpSized p.data gsoSize then .done false
          else if gsoTooBig4 g p 20 8 gsoSize then
            gsoError4 g 3 4 (BitVec.ofNat 32 (g.mtu - mtuAdj)) p
          else if !g.tunHasUso ∨ ihl ≠ 20 then gsoSoftwareSegmentAndSendUdp4to6 g d (some v)
          else do
            match ← gsoMap4to6WithIcmp g p with
            | .error handled => return handled
            | .ok (src6, dst6) =>
              let seed := gsoCalcPseudo6 src6 dst6 17 (BitVec.ofNat 32 p.data.length)
              let ip6 := gsoIp6 p.ip4.tos (p.ip4.ttl - 1) 17 src6 dst6 p.data.length
              emit (some (gsoUdpVhdr v 40)) (ip6.toBytes ++ gsoUdpSeed p.data seed)
              return true

end Tayga
