import Tayga.Aggregates
import Tayga.Config

/-!
# Translating packets

The data paths `xlate_4to6_data` and `xlate_6to4_data`, the translation of ICMP errors, and the two entry points
`handle_ip4` and `handle_ip6`.
-/

namespace Tayga

open Program

variable (g : Gcfg)

/-! ### IPv4 to IPv6 -/

/-- The virtio header of a packet whose transport checksum is left to the device, behind `l3Len` bytes. -/
def outVhdr (proto : Byte) (l3Len : BitVec 16) (vhdr : Option VnetHdr) : Option VnetHdr :=
  if needsCsum vhdr ∧ (proto = 6 ∨ proto = 17) then
    vhdr.map fun v => { v with
      gsoType := vnetGsoNone
      csumStart := l3Len
      csumOffset := if proto = 17 then 6 else 16 }
  else none

/-- The loop of `xlate_4to6_data` that sends fragments, as long as the writes succeed. -/
def fragmentLoop (ip6 : Ip6) (frag : Ip6Frag) (mf : Bool) : Nat → BitVec 16 → Nat → List Byte → PktProg Unit
  | 0, _, _, _ => .done ()
  | n + 1, off, fragSize, data =>
    if data = [] then .done ()
    else
      let fragSize := if data.length < fragSize then data.length else fragSize
      let rest := data.drop fragSize
      let flags := if rest ≠ [] ∨ mf then off ||| ip6FMf else off
      let packet := { ip6 with payloadLength := BitVec.ofNat 16 (8 + fragSize) }.toBytes ++
        { frag with offsetFlags := flags }.toBytes ++ data.take fragSize
      .call (.write none packet) fun ret =>
        if ret < 0 then .done () else fragmentLoop ip6 frag mf n (off + BitVec.ofNat 16 fragSize) fragSize rest

/-- A checksum left to the device is completed before the packet is cut. -/
def completeCsum (p : Pkt4) (ip6 : Ip6) : List Byte :=
  if needsCsum p.vhdr then
    let csumOff := if p.dataProto = 17 then 6 else 16
    let data := putU16 g.endian p.data csumOff 0
    let ck := onesAdd (ipChecksum g.endian data) (ip6Checksum g.endian ip6 (BitVec.ofNat 32 data.length) p.dataProto)
    putU16 g.endian data csumOff (if p.dataProto = 17 then nonzeroCksum ck else ck)
  else p.data

/-- The end of `xlate_4to6_data`, for a packet with mapped addresses. -/
def xlate4to6Emit (p : Pkt4) (src dest : In6) (fragSize : Nat) (noFragHdr : Bool) : PktProg Unit :=
  let ip6 := xlateHeader4to6 p src dest p.data.length
  let ip6 := { ip6 with hopLimit := ip6.hopLimit - 1 }
  match xlatePayload4to6 g p ip6 false with
  | none => statsDrop p.data.length
  | some q =>
    if noFragHdr then emit (outVhdr q.dataProto 40 q.vhdr) (ip6.toBytes ++ q.data)
    else
      let data := completeCsum g q ip6
      let frag : Ip6Frag := ⟨ip6.nextHeader, 0, 0, p.ip4.ident.setWidth 32⟩
      let fragSize := (fragSize - 8) / 8 * 8
      fragmentLoop { ip6 with nextHeader := 44 } frag (p.ip4.flagsOffset &&& ip4FMf ≠ 0) data.length
        ((p.ip4.flagsOffset &&& ip4FMask) * 8) fragSize data

/-- `xlate_4to6_data`.  The mapper reports only `ERROR_REJECT` and `ERROR_DROP`. -/
def xlate4to6Data (p : Pkt4) : PktProg Unit :=
  let off := p.ip4.flagsOffset
  let fragSize := (if g.mtu < g.ipv6OfflinkMtu then g.mtu else g.ipv6OfflinkMtu) - 40
  .call (.mapIp4ToIp6 p.ip4.dest) fun
    | .error .reject => do
      statsDrop p.data.length
      hostSendIcmp4Error g 3 1 0 p
    | .error _ => statsDrop p.data.length
    | .ok dest => .call (.mapIp4ToIp6 p.ip4.src) fun
      | .error .reject => do
        statsDrop p.data.length
        hostSendIcmp4Error g 3 10 0 p
      | .error _ => statsDrop p.data.length
      | .ok src =>
        -- DF is not respected for packets that are fragments already
        if off &&& (ip4FMask ||| ip4FMf) = 0 then
          if off &&& ip4FDf ≠ 0 then
            if g.mtu < 40 + p.data.length then hostSendIcmp4Error g 3 4 (BitVec.ofNat 32 (g.mtu - mtuAdj)) p
            else xlate4to6Emit g p src dest fragSize true
          else xlate4to6Emit g p src dest fragSize (p.data.length ≤ fragSize)
        else xlate4to6Emit g p src dest fragSize false

/-- The table of `est_mtu`. -/
def estMtuTable : List Nat := [65535, 32000, 17914, 8166, 4352, 2002, 1492, 1006, 508, 296]

/-- `est_mtu`. -/
def estMtu (tooBig : Nat) : Nat := (estMtuTable.find? (· < tooBig)).getD 68

/-- The pointers of a Parameter Problem in IPv6. -/
def newPtrTbl4to6 : List (Option Nat) :=
  [some 0, some 1, some 4, some 4, none, none, none, none, some 7, some 6, none, none, some 8, some 8, some 8, some 8,
    some 24, some 24, some 24, some 24]

/-- The ICMPv6 header of a translated error, with `emLength` the total length of the quoted packet. -/
def xlateIcmpError4to6 (icmp : Icmp) (emLength : Nat) : Option Icmp :=
  if icmp.type = 3 then
    if icmp.code ∈ ([0, 1, 5, 6, 7, 8, 11, 12] : List Byte) then some ⟨1, 0, 0, 0⟩
    else if icmp.code = 2 then some ⟨4, 1, 0, 6⟩
    else if icmp.code = 3 then some ⟨1, 4, 0, 0⟩
    else if icmp.code = 4 then
      let mtu := (icmp.word &&& 0xffff).toNat
      let mtu := (if mtu < 68 then estMtu emLength else mtu) + mtuAdj
      let mtu := if g.mtu < mtu then g.mtu else mtu
      some ⟨2, 0, 0, BitVec.ofNat 32 (if mtu < mtuMin then mtuMin else mtu)⟩
    else if icmp.code ∈ ([9, 10, 13, 15] : List Byte) then some ⟨1, 1, 0, 0⟩
    else none
  else if icmp.type = 11 then some ⟨3, icmp.code, 0, 0⟩
  else if icmp.type = 12 then
    if icmp.code ≠ 0 ∧ icmp.code ≠ 2 then none
    else
      let oldPtr := (icmp.word >>> 24).toNat
      if 19 < oldPtr then none
      else (newPtrTbl4to6.getD oldPtr none).map fun ptr => ⟨4, 0, 0, BitVec.ofNat 32 ptr⟩
  else none

/-- The quoted packet of an ICMP error, cut to the length its header gives. -/
def emData (len : Nat) (data : List Byte) : Option (List Byte) :=
  if len = 0 then some data else if data.length < len then none else some (data.take len)

/-- `map_ip4_to_ip6 (..) || map_ip4_to_ip6 (..)` for the addresses of a quoted packet. -/
def mapEm4to6 (p : Pkt4) : PktProg (Option (In6 × In6)) :=
  .call (.mapIp4ToIp6 p.ip4.src) fun
    | .error _ => .done none
    | .ok src => .call (.mapIp4ToIp6 p.ip4.dest) fun
      | .error _ => .done none
      | .ok dest => .done (some (src, dest))

/-- The end of `xlate_4to6_icmp_error`: the error `icmp` about the packet `em`, with its new headers. -/
def xlate4to6IcmpErrorEmit (p : Pkt4) (icmp : Icmp) (emHeader emData : List Byte) : PktProg Unit :=
  .call (.mapIp4ToIp6 p.ip4.src) fun r =>
    -- an unmappable source is replaced by our own address
    let src := match r with
      | .ok src => src
      | .error _ => g.localAddr6
    .call (.mapIp4ToIp6 p.ip4.dest) fun
      | .error _ => .done ()
      | .ok dest =>
        let ip6 := xlateHeader4to6 p src dest (8 + emHeader.length + emData.length)
        let ip6 := { ip6 with hopLimit := ip6.hopLimit - 1 }
        let cksum := onesAdd (ip6Checksum g.endian ip6 (ip6.payloadLength.setWidth 32) 58)
          (onesAdd (ipChecksum g.endian (icmp.toBytes ++ emHeader)) (ipChecksum g.endian emData))
        emit none (ip6.toBytes ++ { icmp with cksum := htons g.endian cksum }.toBytes ++ emHeader ++ emData)

/-- `xlate_4to6_icmp_error`. -/
def xlate4to6IcmpError (p : Pkt4) : PktProg Unit :=
  let emLen := if p.icmp.type = 3 ∨ p.icmp.type = 11 ∨ p.icmp.type = 12 then (p.icmp.word >>> 14 &&& 0x3fc).toNat else 0
  match emData emLen (p.data.drop 8) with
  | none => .done ()
  | some d => match parseIp4 d none true with
    | .error _ => .done ()
    | .ok em =>
      if em.dataProto = 1 ∧ em.icmp.type ≠ 8 then .done ()
      else
        let off := em.ip4.flagsOffset
        let isFrag := off &&& (ip4FMask ||| ip4FMf) ≠ 0
        let fragLen := if isFrag then 8 else 0
        let em := { em with data := em.data.take (mtuMin - 40 * 2 - 8 - fragLen) }
        do
          match ← mapEm4to6 em with
          | none => return
          | some (src, dest) =>
            let payloadLen := em.ip4.length.toNat - em.headerLen + fragLen
            let ip6 := xlateHeader4to6 em src dest (if 65535 < payloadLen then 65535 else payloadLen)
            match xlateIcmpError4to6 g p.icmp em.ip4.length.toNat with
            | none => return
            | some icmp => match xlatePayload4to6 g em ip6 true with
              | none => return
              | some q =>
                let flags := (off &&& ip4FMask) <<< 3 ||| (if off &&& ip4FMf ≠ 0 then ip6FMf else 0)
                let frag : Ip6Frag := ⟨ip6.nextHeader, 0, flags, em.ip4.ident.setWidth 32⟩
                let emHeader := if isFrag then { ip6 with nextHeader := 44 }.toBytes ++ frag.toBytes else ip6.toBytes
                xlate4to6IcmpErrorEmit g p icmp emHeader q.data

/-- `handle_ip4` of a packet that is no aggregate. -/
def handlePlain4 (d : List Byte) (vhdr : Option VnetHdr) : PktProg Unit :=
  match parseIp4 d vhdr false with
  | .error len => statsDrop len
  | .ok p =>
    if p.ip4.ttl = 0 ∨ ipChecksum g.endian p.header ≠ 0 ∨ p.headerLen + p.data.length ≠ p.ip4.length.toNat then
      statsDrop p.data.length
    else if p.dataProto = 1 ∧ ipChecksum g.endian p.data ≠ 0 then statsDrop p.data.length
    else if p.ip4.dest = g.localAddr4 then
      if p.dataProto = 1 then hostHandleIcmp4 g p else hostSendIcmp4Error g 3 2 0 p
    else if p.ip4.ttl = 1 then hostSendIcmp4Error g 11 0 0 p
    else if p.dataProto ≠ 1 ∨ p.icmp.type = 8 ∨ p.icmp.type = 0 then xlate4to6Data g p
    else xlate4to6IcmpError g p

/-- The packet is an aggregate. -/
def isGso (vhdr : Option VnetHdr) : Bool := vhdr.any fun v => v.gso ≠ vnetGsoNone

/-- An aggregate no entry point took is counted as dropped: it is never a plain packet. -/
def dropRefused (len : Nat) (prog : PktProg Bool) : PktProg Unit := do
  if ← prog then return else statsDrop len

/-- `handle_ip4`; `offload` is `gcfg.tun_offload_effective != TUN_OFFLOAD_OFF`. -/
def handleIp4 (offload : Bool) (d : List Byte) (vhdr : Option VnetHdr) : PktProg Unit :=
  if isGso vhdr then
    dropRefused d.length
      (if offload ∧ vhdr.any (·.gso = vnetGsoTcpv4) then gsoTranslateTcp4to6 g d vhdr
      else if offload ∧ vhdr.any (·.gso = vnetGsoUdpL4) then gsoTranslateUdp4to6 g d vhdr
      else .done false)
  else handlePlain4 g d vhdr

/-! ### IPv6 to IPv4 -/

/-- The end of `xlate_6to4_data`, for a packet with mapped addresses. -/
def xlate6to4Emit (p : Pkt6) (src dest : In4) : PktProg Unit := do
  let ip4 ← xlateHeader6to4 p src dest p.data.length
  let ip4 := { ip4 with ttl := ip4.ttl - 1 }
  match xlatePayload6to4 g p ip4 false with
  | none => statsDrop p.data.length
  | some q => emit (outVhdr q.dataProto 20 q.vhdr) ((ip4.withCksum g.endian).toBytes ++ q.data)

/-- `xlate_6to4_data`.  The mapper reports only `ERROR_REJECT` and `ERROR_DROP`. -/
def xlate6to4Data (p : Pkt6) : PktProg Unit :=
  .call (.mapIp6ToIp4 p.ip6.dest false) fun
    | .error .reject => do
      statsDrop p.data.length
      hostSendIcmp6Error g 1 0 0 p
    | .error _ => statsDrop p.data.length
    | .ok dest => .call (.mapIp6ToIp4 p.ip6.src true) fun
      | .error .reject => do
        statsDrop p.data.length
        hostSendIcmp6Error g 1 5 0 p
      | .error _ => statsDrop p.data.length
      | .ok src =>
        if g.mtu < 40 + p.data.length then hostSendIcmp6Error g 2 0 (BitVec.ofNat 32 g.mtu) p
        else xlate6to4Emit g p src dest

/-- The pointers of a Parameter Problem in IPv4. -/
def newPtrTbl6to4 : List (Option Nat) := [some 0, some 1, none, none, some 2, some 2, some 9, some 8]

/-- The ICMPv4 header of a translated error. -/
def xlateIcmpError6to4 (icmp : Icmp) : Option Icmp :=
  if icmp.type = 1 then
    if icmp.code = 0 ∨ icmp.code = 2 ∨ icmp.code = 3 then some ⟨3, 1, 0, 0⟩
    else if icmp.code = 1 ∨ icmp.code = 5 ∨ icmp.code = 6 then some ⟨3, 10, 0, 0⟩
    else if icmp.code = 4 then some ⟨3, 3, 0, 0⟩
    else none
  else if icmp.type = 2 then
    let mtu := icmp.word.toNat
    if mtu < 68 + mtuAdj then none
    else some ⟨3, 4, 0, BitVec.ofNat 32 ((if g.mtu < mtu then g.mtu else mtu) - mtuAdj)⟩
  else if icmp.type = 3 then some ⟨11, icmp.code, 0, 0⟩
  else if icmp.type = 4 then
    if icmp.code = 0 then
      let oldPtr := icmp.word.toNat
      let newPtr := if 39 < oldPtr then none else if 23 < oldPtr then some 16 else if 7 < oldPtr then some 12
        else newPtrTbl6to4.getD oldPtr none
      newPtr.map fun ptr => ⟨12, 0, 0, BitVec.ofNat 32 ptr <<< 24⟩
    else if icmp.code = 1 then some ⟨3, 2, 0, 0⟩
    else none
  else none

/-- `map_ip6_to_ip4 (..) || map_ip6_to_ip4 (..)` for the addresses of a quoted packet. -/
def mapEm6to4 (p : Pkt6) : PktProg (Option (In4 × In4)) :=
  .call (.mapIp6ToIp4 p.ip6.src false) fun
    | .error _ => .done none
    | .ok src => .call (.mapIp6ToIp4 p.ip6.dest false) fun
      | .error _ => .done none
      | .ok dest => .done (some (src, dest))

/-- The end of `xlate_6to4_icmp_error`: the error `icmp` about the packet `em`, with its new headers. -/
def xlate6to4IcmpErrorEmit (p : Pkt6) (icmp : Icmp) (emHeader emData : List Byte) : PktProg Unit :=
  .call (.mapIp6ToIp4 p.ip6.src false) fun r =>
    -- an unmappable source is replaced by our own address
    let src := match r with
      | .ok src => src
      | .error _ => g.localAddr4
    .call (.mapIp6ToIp4 p.ip6.dest false) fun
      | .error _ => .done ()
      | .ok dest => do
        let ip4 ← xlateHeader6to4 p src dest (8 + emHeader.length + emData.length)
        let ip4 := { ip4 with ttl := ip4.ttl - 1 }
        let cksum := onesAdd (ipChecksum g.endian (icmp.toBytes ++ emHeader)) (ipChecksum g.endian emData)
        emit none ((ip4.withCksum g.endian).toBytes ++ { icmp with cksum := htons g.endian cksum }.toBytes ++
          emHeader ++ emData)

/-- `xlate_6to4_icmp_error`. -/
def xlate6to4IcmpError (p : Pkt6) : PktProg Unit :=
  let emLen := if p.icmp.type = 1 ∨ p.icmp.type = 3 then (p.icmp.word >>> 21 &&& 0x7f8).toNat else 0
  match emData emLen (p.data.drop 8) with
  | none => .done ()
  | some d => match parseIp6 d none true with
    | .drop _ => .done ()
    | .routing _ _ => .done ()
    | .ok em =>
      if em.dataProto = 58 ∧ em.icmp.type ≠ 128 then .done ()
      else
        let em := { em with data := em.data.take (576 - 20 * 2 - 8) }
        match xlateIcmpError6to4 g p.icmp with
        | none => .done ()
        | some icmp => do
          match ← mapEm6to4 em with
          | none => return
          | some (src, dest) =>
            let ip4 ← xlateHeader6to4 em src dest (em.ip6.payloadLength.toNat - em.headerLen)
            match xlatePayload6to4 g em ip4 true with
            | none => return
            | some q =>
              let ip4 := { ip4 with cksum := htons g.endian (ipChecksum g.endian ip4.toBytes) }
              xlate6to4IcmpErrorEmit g p icmp ip4.toBytes q.data

/-- `handle_ip6` of a packet that is no aggregate. -/
def handlePlain6 (d : List Byte) (vhdr : Option VnetHdr) : PktProg Unit :=
  match parseIp6 d vhdr false with
  | .drop len => statsDrop len
  | .routing ptr p => do
    hostSendIcmp6Error g 4 0 (BitVec.ofNat 32 ptr) p
    statsDrop p.data.length
  | .ok p =>
    if p.ip6.hopLimit = 0 ∨ p.headerLen + p.data.length ≠ p.ip6.payloadLength.toNat then statsDrop p.data.length
    else if p.dataProto = 58 ∧ onesAdd (ipChecksum g.endian p.data)
        (ip6Checksum g.endian p.ip6 (BitVec.ofNat 32 p.data.length) 58) ≠ 0 then statsDrop p.data.length
    else if p.ip6.dest = g.localAddr6 then
      if p.dataProto = 58 then hostHandleIcmp6 g p else hostSendIcmp6Error g 4 1 6 p
    else if p.ip6.hopLimit = 1 then hostSendIcmp6Error g 3 0 0 p
    else if p.dataProto ≠ 58 ∨ p.icmp.type = 128 ∨ p.icmp.type = 129 then xlate6to4Data g p
    else xlate6to4IcmpError g p

/-- `handle_ip6`; `offload` is `gcfg.tun_offload_effective != TUN_OFFLOAD_OFF`. -/
def handleIp6 (offload : Bool) (d : List Byte) (vhdr : Option VnetHdr) : PktProg Unit :=
  if isGso vhdr then
    dropRefused d.length
      (if offload ∧ vhdr.any (·.gso = vnetGsoTcpv6) then gsoTranslateTcp6to4 g d vhdr
      else if offload ∧ vhdr.any (·.gso = vnetGsoUdpL4) then gsoTranslateUdp6to4 g d vhdr
      else .done false)
  else handlePlain6 g d vhdr

/-- The switch of `tun_process_frame`. -/
def handlePacket (offload : Bool) (d : List Byte) (vhdr : Option VnetHdr) : PktProg Unit :=
  if getU8 d 0 >>> 4 = 4 then handleIp4 g offload d vhdr
  else if getU8 d 0 >>> 4 = 6 then handleIp6 g offload d vhdr
  else statsDrop d.length

end Tayga
