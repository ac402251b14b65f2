import Tayga.LossLaw

/-!
# What is written, packet by packet

Every packet the two entry points can write, with its virtio header and with what the code has checked by then:
`Output4` and `Output6` for a plain packet, `GsoOutput4` and `GsoOutput6` for an aggregate.
-/

namespace Tayga

open Program

variable {g : Gcfg} {d : List Byte} {vhdr : Option VnetHdr} {ans : (op : PktOp) → op.Ans} {α β : Type}

/-! ### Lengths -/

/-- The length field of an IPv4 packet that was given its length. -/
theorem ip4_length {h : Ip4} {rest : List Byte} (hlen : h.length = BitVec.ofNat 16 (20 + rest.length))
    (hle : 20 + rest.length < 65536) : (getBe16 (h.toBytes ++ rest) 2).toNat = (h.toBytes ++ rest).length := by
  have hfield : getBe16 (h.toBytes ++ rest) 2 = h.length := append_be16 h.length
  rw [hfield, hlen, BitVec.toNat_ofNat, Nat.mod_eq_of_lt hle, List.length_append]
  rfl

/-- The length field of an IPv6 packet that was given its length. -/
theorem ip6_length {h : Ip6} {rest : List Byte} (hlen : h.payloadLength = BitVec.ofNat 16 rest.length)
    (hle : rest.length < 65536) : (getBe16 (h.toBytes ++ rest) 4).toNat + 40 = (h.toBytes ++ rest).length := by
  have hfield : getBe16 (h.toBytes ++ rest) 4 = h.payloadLength := append_be16 h.payloadLength
  rw [hfield, hlen, BitVec.toNat_ofNat, Nat.mod_eq_of_lt hle, List.length_append, Nat.add_comm]
  rfl

/-! ### Plain packets to IPv6 -/

/-- The packet `host_send_icmp4` writes. -/
def icmpPacket4 (e : Endian) (tos : Byte) (src dest : In4) (icmp : Icmp) (data : List Byte) : List Byte :=
  let ip4 : Ip4 := ⟨0x45, tos, BitVec.ofNat 16 (20 + 8 + data.length), 0, 0, 64, 1, 0, src, dest⟩
  let icmp := { icmp with cksum := 0 }
  let cksum := onesAdd (ipChecksum e data) (ipChecksum e icmp.toBytes)
  (ip4.withCksum e).toBytes ++ { icmp with cksum := htons e cksum }.toBytes ++ data

theorem hostSendIcmp4_eq (e : Endian) (tos : Byte) (src dest : In4) (icmp : Icmp) (data : List Byte) :
    hostSendIcmp4 e tos src dest icmp data = emit none (icmpPacket4 e tos src dest icmp data) := rfl

theorem version_icmpPacket4 (e : Endian) (tos : Byte) (src dest : In4) (icmp : Icmp) (data : List Byte) :
    version (icmpPacket4 e tos src dest icmp data) = 4 := by
  unfold icmpPacket4
  dsimp only
  rw [List.append_assoc]
  exact Ip4.version_toBytes rfl _

/-- An ICMP error about a packet. -/
def errorPacket4 (g : Gcfg) (type code : Byte) (word : BitVec 32) (p : Pkt4) : List Byte :=
  icmpPacket4 g.endian 0 g.localAddr4 p.ip4.src ⟨type, code, 0, word⟩ ((p.header ++ p.data).take (576 - 20 - 8))

/-- The answer to an echo request. -/
def replyPacket4 (g : Gcfg) (p : Pkt4) : List Byte :=
  icmpPacket4 g.endian p.ip4.tos p.ip4.dest p.ip4.src { p.icmp with type := 0 } (p.data.drop 8)

/-- No ICMP error, so a packet for the data path. -/
def DataPacket4 (p : Pkt4) : Prop := p.dataProto ≠ 1 ∨ p.icmp.type = 8 ∨ p.icmp.type = 0

instance : DecidablePred DataPacket4 := fun _ => inferInstanceAs (Decidable (_ ∨ _))

/-- The header of a packet on the data path. -/
def dataHeader4to6 (p : Pkt4) (src dest : In6) : Ip6 :=
  let ip6 := xlateHeader4to6 p src dest p.data.length
  { ip6 with hopLimit := ip6.hopLimit - 1 }

/-- What is written for a packet that `handle_ip4` has accepted. -/
inductive Output4 (g : Gcfg) (p : Pkt4) : Option VnetHdr → List Byte → Prop where
  | reply (hdest : p.ip4.dest = g.localAddr4) (hicmp : p.dataProto = 1 ∧ p.icmp.type = 8) :
      Output4 g p none (replyPacket4 g p)
  | error (type code : Byte) (word : BitVec 32) (htype : type ∈ ([3, 11] : List Byte)) (hicmp : ¬IcmpOther4 p) :
      Output4 g p none (errorPacket4 g type code word p)
  | whole {src dest : In6} {q : Pkt4} (hdata : DataPacket4 p)
      (hq : xlatePayload4to6 g p (dataHeader4to6 p src dest) false = some q) :
      Output4 g p (outVhdr q.dataProto 40 q.vhdr) ((dataHeader4to6 p src dest).toBytes ++ q.data)
  | fragment {ip6 : Ip6} {frag : Ip6Frag} {part : List Byte} (hdata : DataPacket4 p)
      (hv : ip6.verTcFl = verTc p.ip4.tos) (hnext : ip6.nextHeader = 44)
      (hlen : ip6.payloadLength = BitVec.ofNat 16 (8 + part.length)) (hmax : 8 + part.length < 65536) :
      Output4 g p none (ip6.toBytes ++ frag.toBytes ++ part)
  | translated {packet : List Byte} (hdest : p.ip4.dest ≠ g.localAddr4) (httl : p.ip4.ttl ≠ 1) (hicmp : ¬DataPacket4 p)
      (h : ErrorTo6 g p packet) : Output4 g p none packet

theorem errorTo6_version {p : Pkt4} {packet : List Byte} (h : ErrorTo6 g p packet) : version packet = 6 := by
  obtain ⟨emSrc, emDest, hquote, hicmp, hpayload⟩ := h
  unfold errorPacket4to6
  dsimp only
  rw [List.append_assoc, List.append_assoc]
  exact Ip6.version_toBytes rfl _

section Plain4

variable {p : Pkt4}

theorem length_payload4to6 {q : Pkt4} {ip6 : Ip6} (hp : Parsed4 d vhdr false p)
    (hq : xlatePayload4to6 g p ip6 false = some q) : q.data.length = p.data.length := by
  obtain ⟨r, hr, rfl⟩ := Option.map_eq_some_iff.1 hq
  exact length_xlatePayload hr fun h => (hp.hicmp h).1

private theorem hostSendIcmp4Error_output {type code : Byte} {word : BitVec 32} (htype : type ∈ ([3, 11] : List Byte)) :
    OnlySends (Output4 g p) (hostSendIcmp4Error g type code word p) :=
  .ite (fun _ => .done _) fun h => .emit (.error type code word htype h)

/-- Each fragment is the header, the fragment header and a part of the data. -/
private theorem fragmentLoop_output {ip6 : Ip6} {frag : Ip6Frag} {mf : Bool} (hdata : DataPacket4 p)
    (hv : ip6.verTcFl = verTc p.ip4.tos) (hn : ip6.nextHeader = 44) (n : Nat) (off : BitVec 16) (fragSize : Nat)
    (data : List Byte) (hmax : 8 + data.length < 65536) :
    OnlySends (Output4 g p) (fragmentLoop ip6 frag mf n off fragSize data) := by
  induction n generalizing off fragSize data with
  | zero => trivial
  | succ n ih =>
    unfold fragmentLoop
    dsimp only
    refine .ite (fun _ => .done _) fun _ => ?_
    generalize hsize : (if data.length < fragSize then data.length else fragSize) = size
    have hle : size ≤ data.length := by
      rw [← hsize]
      split <;> omega
    have hpart : (data.take size).length = size := List.length_take_of_le hle
    refine ⟨.fragment hdata hv hn (by rw [hpart]) (by rw [hpart]; omega), fun ret => ?_⟩
    refine OnlySends.ite (fun _ => .done _) fun _ => ih _ _ _ ?_
    rw [List.length_drop]
    omega

private theorem length_put_le {data s : List Byte} {i : Nat} :
    (put data i s).length ≤ max data.length (i + s.length) := by
  unfold put
  rw [List.length_append, List.length_append, List.length_take, List.length_drop]
  omega

theorem length_completeCsum {ip6 : Ip6} : (completeCsum g p ip6).length ≤ max p.data.length 18 := by
  unfold completeCsum
  split
  · dsimp only
    generalize hoff : (if p.dataProto = 17 then 6 else 16) = off
    have hle : off ≤ 16 := by
      rw [← hoff]
      split <;> omega
    unfold putU16
    refine length_put_le.trans ?_
    have h : (put p.data off (be16 (htons g.endian 0))).length ≤ _ := length_put_le
    have hbe : ∀ v : BitVec 16, (be16 v).length = 2 := fun _ => rfl
    rw [hbe] at h ⊢
    omega
  · exact le_max_left _ _

private theorem xlate4to6Emit_output {src dest : In6} {fragSize : Nat} {noFragHdr : Bool}
    (hp : Parsed4 d vhdr false p) (hdata : DataPacket4 p) :
    OnlySends (Output4 g p) (xlate4to6Emit g p src dest fragSize noFragHdr) := by
  unfold xlate4to6Emit
  dsimp only
  rcases hq : xlatePayload4to6 g p (dataHeader4to6 p src dest) false with _ | q
  · rw [show xlatePayload4to6 g p { xlateHeader4to6 p src dest p.data.length with hopLimit := _ } false = none from hq]
    exact .statsDrop _
  rw [show xlatePayload4to6 g p { xlateHeader4to6 p src dest p.data.length with hopLimit := _ } false = some q from hq]
  refine .ite (fun _ => .emit (.whole hdata hq)) fun _ => fragmentLoop_output hdata rfl rfl _ _ _ _ ?_
  obtain ⟨r, hr, rfl⟩ := Option.map_eq_some_iff.1 hq
  have hlen : r.1.length = p.data.length := length_xlatePayload hr fun h => (hp.hicmp h).1
  have hle : (completeCsum g { p with data := r.1, vhdr := r.2 } (dataHeader4to6 p src dest)).length ≤ _ :=
    length_completeCsum
  have htotal := hp.hlen
  have hmin := hp.hmin
  have hmax := p.ip4.length.isLt
  dsimp only at hle
  show 8 + (completeCsum g { p with data := r.1, vhdr := r.2 } (dataHeader4to6 p src dest)).length < 65536
  omega

private theorem xlate4to6Data_output (hp : Parsed4 d vhdr false p) (hdata : DataPacket4 p) :
    OnlySends (Output4 g p) (xlate4to6Data g p) := by
  refine ⟨trivial, fun r => ?_⟩
  rcases r with (_ | _ | _) | dest
  · exact (OnlySends.statsDrop _).bind fun _ => hostSendIcmp4Error_output (by decide)
  · exact OnlySends.statsDrop _
  · exact OnlySends.statsDrop _
  refine ⟨trivial, fun r => ?_⟩
  rcases r with (_ | _ | _) | src
  · exact (OnlySends.statsDrop _).bind fun _ => hostSendIcmp4Error_output (by decide)
  · exact OnlySends.statsDrop _
  · exact OnlySends.statsDrop _
  refine OnlySends.ite (fun _ => .ite (fun _ => .ite (fun _ => hostSendIcmp4Error_output (by decide)) fun _ => ?_)
    fun _ => ?_) fun _ => ?_
  all_goals exact xlate4to6Emit_output hp hdata

/-- **What is written for a plain IPv4 packet.** -/
theorem handlePlain4_output : OnlySends (fun out packet => ∃ p, parseIp4 d vhdr false = .ok p ∧ Valid4 g p ∧
    Output4 g p out packet) (handlePlain4 g d vhdr) := by
  unfold handlePlain4
  rcases hparse : parseIp4 d vhdr false with n | p
  · exact OnlySends.statsDrop _
  dsimp only
  have hp := parsed4_of_parseIp4 hparse
  refine .ite (fun _ => .statsDrop _) fun hheader => .ite (fun _ => .statsDrop _) fun hcksum => ?_
  rw [not_or, not_or, not_not, not_not] at hheader
  rw [not_and, not_not] at hcksum
  have hvalid : Valid4 g p := ⟨hheader.1, hheader.2.1, hheader.2.2, hcksum⟩
  suffices h : OnlySends (Output4 g p) _ from h.mono fun out packet h => ⟨p, rfl, hvalid, h⟩
  refine .ite (fun hdest => .ite (fun hproto => ?_) fun _ => hostSendIcmp4Error_output (by decide)) fun hdest =>
    .ite (fun _ => hostSendIcmp4Error_output (by decide)) fun httl => .ite (xlate4to6Data_output hp) fun hicmp => ?_
  · exact .ite (fun htype => .emit (.reply hdest ⟨hproto, htype⟩)) fun _ => .done _
  · refine (xlate4to6IcmpError_errorTo6 p).mono fun out packet h => ?_
    obtain ⟨rfl, h⟩ := h
    exact .translated hdest httl hicmp h

end Plain4

/-! ### Plain packets to IPv4 -/

/-- The packet `host_send_icmp6` writes. -/
def icmpPacket6 (e : Endian) (tc : Byte) (src dest : In6) (icmp : Icmp) (data : List Byte) : List Byte :=
  let ip6 : Ip6 := ⟨0x60000000 ||| tc.setWidth 32 <<< 20, BitVec.ofNat 16 (8 + data.length), 58, 64, src, dest⟩
  let icmp := { icmp with cksum := 0 }
  let cksum := onesAdd (ipChecksum e data) (ipChecksum e icmp.toBytes)
  let cksum := onesAdd cksum (ip6Checksum e ip6 (BitVec.ofNat 32 (data.length + 8)) 58)
  ip6.toBytes ++ { icmp with cksum := htons e cksum }.toBytes ++ data

theorem hostSendIcmp6_eq (e : Endian) (tc : Byte) (src dest : In6) (icmp : Icmp) (data : List Byte) :
    hostSendIcmp6 e tc src dest icmp data = emit none (icmpPacket6 e tc src dest icmp data) := rfl

theorem version_icmpPacket6 (e : Endian) (tc : Byte) (src dest : In6) (icmp : Icmp) (data : List Byte) :
    version (icmpPacket6 e tc src dest icmp data) = 6 := by
  unfold icmpPacket6
  dsimp only
  rw [List.append_assoc]
  exact Ip6.version_toBytes rfl _

/-- An ICMPv6 error about a packet. -/
def errorPacket6 (g : Gcfg) (type code : Byte) (word : BitVec 32) (p : Pkt6) : List Byte :=
  icmpPacket6 g.endian 0 g.localAddr6 p.ip6.src ⟨type, code, 0, word⟩ ((p.header ++ p.data).take (1280 - 40 - 8))

/-- The answer to an ICMPv6 echo request. -/
def replyPacket6 (g : Gcfg) (p : Pkt6) : List Byte :=
  icmpPacket6 g.endian p.ip6.tc p.ip6.dest p.ip6.src { p.icmp with type := 129 } (p.data.drop 8)

/-- No ICMPv6 error, so a packet for the data path. -/
def DataPacket6 (p : Pkt6) : Prop := p.dataProto ≠ 58 ∨ p.icmp.type = 128 ∨ p.icmp.type = 129

instance : DecidablePred DataPacket6 := fun _ => inferInstanceAs (Decidable (_ ∨ _))

/-- What is written for a packet that `handle_ip6` has accepted. -/
inductive Output6 (g : Gcfg) (p : Pkt6) : Option VnetHdr → List Byte → Prop where
  | reply (hdest : p.ip6.dest = g.localAddr6) (hicmp : p.dataProto = 58 ∧ p.icmp.type = 128) :
      Output6 g p none (replyPacket6 g p)
  | error (type code : Byte) (word : BitVec 32) (htype : type ∈ ([1, 2, 3, 4] : List Byte)) (hicmp : ¬IcmpOther6 p) :
      Output6 g p none (errorPacket6 g type code word p)
  | whole {src dest : In4} {ip4 : Ip4} {q : Pkt6} (hdata : DataPacket6 p) (hfit : 40 + p.data.length ≤ g.mtu)
      (hip4 : HeaderTo4 p src dest p.data.length ip4) (hq : xlatePayload6to4 g p ip4 false = some q) :
      Output6 g p (outVhdr q.dataProto 20 q.vhdr) ((ip4.withCksum g.endian).toBytes ++ q.data)
  | translated {packet : List Byte} (hdest : p.ip6.dest ≠ g.localAddr6) (hhops : p.ip6.hopLimit ≠ 1)
      (hicmp : ¬DataPacket6 p) (h : ErrorTo4 g p packet) : Output6 g p none packet

theorem errorTo4_version {p : Pkt6} {packet : List Byte} (h : ErrorTo4 g p packet) : version packet = 4 := by
  obtain ⟨hquote, hicmp, hem, hpayload, hip4⟩ := h
  unfold errorPacket6to4
  dsimp only
  rw [List.append_assoc, List.append_assoc]
  refine Ip4.version_toBytes ?_ _
  exact hip4.hverIhl

section Plain6

variable {p : Pkt6}

theorem length_payload6to4 {q : Pkt6} {ip4 : Ip4} (hp : parseIp6 d vhdr false = .ok p)
    (hq : xlatePayload6to4 g p ip4 false = some q) : q.data.length = p.data.length := by
  obtain ⟨hs, hwf, -⟩ := parseIp6_eq_ok hp
  obtain ⟨r, hr, rfl⟩ := Option.map_eq_some_iff.1 hq
  exact length_xlatePayload hr fun h => (hwf.hicmp h).1

private theorem hostSendIcmp6Error_output {type code : Byte} {word : BitVec 32}
    (htype : type ∈ ([1, 2, 3, 4] : List Byte)) :
    OnlySends (Output6 g p) (hostSendIcmp6Error g type code word p) :=
  .ite (fun _ => .done _) fun h => .emit (.error type code word htype h)

private theorem HeaderTo4.withTtl {src dest : In4} {len : Nat} {h : Ip4} (hh : HeaderTo4 p src dest len h)
    (ttl : Byte) :
    HeaderTo4 p src dest len { h with ttl := ttl } :=
  ⟨hh.hverIhl, hh.hlength, hh.hproto, hh.hcksum⟩

private theorem xlate6to4Emit_output {src dest : In4} (hdata : DataPacket6 p) (hfit : 40 + p.data.length ≤ g.mtu) :
    OnlySends (Output6 g p) (xlate6to4Emit g p src dest) := by
  refine Asks.bind (xlateHeader6to4_to4 trivial p src dest p.data.length) fun ip4 hip4 => ?_
  dsimp only
  split
  · exact OnlySends.statsDrop _
  · next q hq => exact OnlySends.emit (.whole hdata hfit (hip4.withTtl _) hq)

private theorem xlate6to4Data_output (hdata : DataPacket6 p) : OnlySends (Output6 g p) (xlate6to4Data g p) := by
  refine ⟨trivial, fun r => ?_⟩
  rcases r with (_ | _ | _) | dest
  · exact (OnlySends.statsDrop _).bind fun _ => hostSendIcmp6Error_output (by decide)
  · exact OnlySends.statsDrop _
  · exact OnlySends.statsDrop _
  refine ⟨trivial, fun r => ?_⟩
  rcases r with (_ | _ | _) | src
  · exact (OnlySends.statsDrop _).bind fun _ => hostSendIcmp6Error_output (by decide)
  · exact OnlySends.statsDrop _
  · exact OnlySends.statsDrop _
  exact OnlySends.ite (fun _ => hostSendIcmp6Error_output (by decide)) fun h =>
    xlate6to4Emit_output hdata (Nat.not_lt.1 h)

/-- **What is written for a plain IPv6 packet.** -/
theorem handlePlain6_output : OnlySends (fun out packet => ∃ p,
    (parseIp6 d vhdr false = .ok p ∧ Valid6 g p ∧ Output6 g p out packet) ∨
    (∃ ptr, parseIp6 d vhdr false = .routing ptr p) ∧ ¬IcmpOther6 p ∧
      ∃ word, out = none ∧ packet = errorPacket6 g 4 0 word p) (handlePlain6 g d vhdr) := by
  unfold handlePlain6
  rcases hparse : parseIp6 d vhdr false with p | n | ⟨ptr, p⟩
  rotate_left
  · exact OnlySends.statsDrop _
  · refine OnlySends.bind (OnlySends.ite (fun _ => .done _) fun h => ?_) fun _ => .statsDrop _
    exact .emit ⟨p, .inr ⟨⟨ptr, rfl⟩, h, _, rfl, rfl⟩⟩
  dsimp only
  refine .ite (fun _ => .statsDrop _) fun hheader => .ite (fun _ => .statsDrop _) fun hcksum => ?_
  rw [not_or, not_not] at hheader
  rw [not_and, not_not] at hcksum
  have hvalid : Valid6 g p := ⟨hheader.1, hheader.2, hcksum⟩
  suffices h : OnlySends (Output6 g p) _ from h.mono fun out packet h => ⟨p, .inl ⟨rfl, hvalid, h⟩⟩
  refine .ite (fun hdest => .ite (fun hproto => ?_) fun _ => hostSendIcmp6Error_output (by decide)) fun hdest =>
    .ite (fun _ => hostSendIcmp6Error_output (by decide)) fun hhops => .ite xlate6to4Data_output fun hicmp => ?_
  · exact .ite (fun htype => .emit (.reply hdest ⟨hproto, htype⟩)) fun _ => .done _
  · refine (xlate6to4IcmpError_errorTo4 p).mono fun out packet h => ?_
    obtain ⟨rfl, h⟩ := h
    exact .translated hdest hhops hicmp h

end Plain6

/-! ### Aggregates to IPv4 -/

/-- What `gso_translate_tcp_6to4` has checked of an aggregate it translates. -/
structure TcpTo4 (d : List Byte) (v : VnetHdr) : Prop where
  hheader : 0 < gsoValidateHeader d.length v
  hvalid : gsoValidIp6 d 6
  hmin : 20 ≤ tcpHdrLen (d.drop 40)
  hfit : 40 + tcpHdrLen (d.drop 40) ≤ d.length
  hvnet : gsoValidateTransportVnet d.length v 40 (tcpHdrLen (d.drop 40)) 16
  hmax : 20 + (d.drop 40).length ≤ 65535

/-- What is written for an aggregate from IPv6. -/
inductive GsoOutput6 (g : Gcfg) (d : List Byte) (v : VnetHdr) : Option VnetHdr → List Byte → Prop where
  | error {proto : Byte} (type code : Byte) (word : BitVec 32) (hproto : IsTransport proto)
      (hvalid : gsoValidIp6 d proto) (htype : type ∈ ([1, 2, 3, 4] : List Byte)) :
      GsoOutput6 g d v none (errorPacket6 g type code word (gsoPkt6 d v proto))
  | segment {h : Ip4} (rest : List Byte) (hv : h.verIhl = 0x45) (hproto : IsTransport h.proto) :
      GsoOutput6 g d v none (h.toBytes ++ rest)
  | tcpHead {headLen : Nat} (src4 dst4 : In4) (h : TcpTo4 d v)
      (hle : tcpHdrLen (d.drop 40) + headLen ≤ (d.drop 40).length) :
      GsoOutput6 g d v (gsoTcpHead g v (gsoPkt6 d v 6) (tcpHdrLen (d.drop 40)) headLen src4 dst4).1
        (gsoTcpHead g v (gsoPkt6 d v 6) (tcpHdrLen (d.drop 40)) headLen src4 dst4).2
  | tcpTail {headLen : Nat} (src4 dst4 : In4) (ident : BitVec 16) (h : TcpTo4 d v) :
      GsoOutput6 g d v (gsoTcpTail g (gsoPkt6 d v 6) (tcpHdrLen (d.drop 40)) headLen src4 dst4 ident).1
        (gsoTcpTail g (gsoPkt6 d v 6) (tcpHdrLen (d.drop 40)) headLen src4 dst4 ident).2
  | tcp {h : Ip4} {seed : BitVec 16} (hv : h.verIhl = 0x45) (hproto : h.proto = 6) (htcp : TcpTo4 d v) :
      GsoOutput6 g d v
        (some (gsoNormalizeTcpOutput (gsoTcpVhdr v vnetGsoTcpv4 40 20)
          ((d.drop 40).drop (tcpHdrLen (d.drop 40))).length))
        (h.toBytes ++ put (d.drop 40) 16 (be16 seed))
  | udp {h : Ip4} {seed : BitVec 16} (hv : h.verIhl = 0x45) (hproto : h.proto = 17) (hfit : 48 ≤ d.length) :
      GsoOutput6 g d v (some (gsoUdpVhdr v 20)) (h.toBytes ++ gsoUdpSeed (d.drop 40) seed)

section Gso6

theorem gsoTcpHead_ip4 (v : VnetHdr) (p : Pkt6) (l4Len headLen : Nat) (src4 dst4 : In4) :
    ∃ (h : Ip4) (rest : List Byte), (gsoTcpHead g v p l4Len headLen src4 dst4).2 = h.toBytes ++ rest ∧
      h.verIhl = 0x45 ∧ h.proto = 6 := by
  unfold gsoTcpHead
  dsimp only
  exact ⟨_, _, List.append_assoc _ _ _, rfl, rfl⟩

theorem gsoTcpTail_ip4 (p : Pkt6) (l4Len headLen : Nat) (src4 dst4 : In4) (ident : BitVec 16) :
    ∃ (h : Ip4) (rest : List Byte), (gsoTcpTail g p l4Len headLen src4 dst4 ident).2 = h.toBytes ++ rest ∧
      h.verIhl = 0x45 ∧ h.proto = 6 := by
  unfold gsoTcpTail
  dsimp only
  split
  all_goals exact ⟨_, _, List.append_assoc _ _ _, rfl, rfl⟩


variable {v : VnetHdr}

private theorem gsoError6_output {proto type code : Byte} {word : BitVec 32} (hproto : IsTransport proto)
    (hvalid : gsoValidIp6 d proto) (htype : type ∈ ([1, 2, 3, 4] : List Byte)) :
    OnlySends (GsoOutput6 g d v) (gsoError6 g type code word (gsoPkt6 d v proto)) :=
  (OnlySends.ite (fun _ => .done _) fun _ => .emit (.error type code word hproto hvalid htype)).bind fun _ => .done _

private theorem gsoMap6to4WithIcmp_output {proto : Byte} (hproto : IsTransport proto) (hvalid : gsoValidIp6 d proto) :
    OnlySends (GsoOutput6 g d v) (gsoMap6to4WithIcmp g (gsoPkt6 d v proto)) :=
  gsoMap6to4WithIcmp_asks (fun _ _ => trivial) fun type htype code word =>
    have htype : type ∈ ([1, 2, 3, 4] : List Byte) := (show ([1, 4] : List Byte) ⊆ [1, 2, 3, 4] by decide) htype
    OnlySends.ite (fun _ => .done _) fun _ => .emit (.error type code word hproto hvalid htype)

/-- The loop of the software emitters sends what its segments are built as. -/
theorem segmentLoop_sends {P : Option VnetHdr → List Byte → Prop} {gsoSize : Nat} {build : SegmentBuilder}
    (hbuild : ∀ offset isLast nextId seg r, build offset isLast nextId seg = some r → P none r.1) (n offset : Nat)
    (nextId : BitVec 16) (payload : List Byte) : OnlySends P (segmentLoop gsoSize build n offset nextId payload) := by
  induction n generalizing offset nextId payload with
  | zero => trivial
  | succ n ih =>
    unfold segmentLoop
    dsimp only
    split
    · trivial
    · next packet nextId' hr =>
      refine ⟨hbuild _ _ _ _ _ hr, fun ret => ?_⟩
      exact OnlySends.ite (fun _ => trivial) fun _ => OnlySends.ite (fun _ => trivial) fun _ => ih _ _ _

private theorem buildTcp6to4_output {e : Endian} {tcp : TcpHdr} {l4Len : Nat} {src4 dst4 : In4} {offset : Nat}
    {isLast : Bool} {nextId : BitVec 16} {seg : List Byte} {r : List Byte × BitVec 16}
    (hr : buildTcp6to4 e (gsoPkt6 d v 6) tcp l4Len src4 dst4 offset isLast nextId seg = some r) :
    GsoOutput6 g d v none r.1 := by
  unfold buildTcp6to4 at hr
  dsimp only at hr
  split at hr
  · cases hr
  · cases hr
    dsimp only
    rw [List.append_assoc]
    exact .segment _ segmentIp4_header.1 (.inl segmentIp4_header.2)

private theorem buildUdp6to4_output {e : Endian} {udp : UdpHdr} {src4 dst4 : In4} {offset : Nat} {isLast : Bool}
    {nextId : BitVec 16} {seg : List Byte} {r : List Byte × BitVec 16}
    (hr : buildUdp6to4 e (gsoPkt6 d v 17) udp src4 dst4 offset isLast nextId seg = some r) :
    GsoOutput6 g d v none r.1 := by
  unfold buildUdp6to4 at hr
  dsimp only at hr
  split at hr
  · cases hr
  · cases hr
    dsimp only
    rw [List.append_assoc]
    exact .segment _ segmentIp4_header.1 (.inr segmentIp4_header.2)

private theorem gsoSoftwareSegmentAndSend6to4_output :
    OnlySends (GsoOutput6 g d v) (gsoSoftwareSegmentAndSend6to4 g d (some v)) := by
  unfold gsoSoftwareSegmentAndSend6to4
  refine .ite (fun _ => .done _) fun _ => .ite (fun _ => .done _) fun hip6 => ?_
  have hvalid : gsoValidIp6 d 6 := by simpa using (not_or.1 hip6).2
  have h6 : IsTransport 6 := .inl rfl
  refine .ite (fun _ => .done _) fun _ => .ite (fun _ => .done _) fun _ =>
    .ite (fun _ => gsoError6_output h6 hvalid (by decide)) fun _ =>
    .ite (fun _ => gsoError6_output h6 hvalid (by decide)) fun _ => ?_
  refine (gsoMap6to4WithIcmp_output h6 hvalid).bind fun r => ?_
  rcases r with handled | ⟨src4, dst4⟩
  · trivial
  · exact (OnlySends.of_silent reserveSegments_writes).bind fun nextId =>
      segmentLoop_sends (fun _ _ _ _ _ hr => buildTcp6to4_output hr) _ _ _ _

private theorem gsoSoftwareSegmentAndSendUdp6to4_output :
    OnlySends (GsoOutput6 g d v) (gsoSoftwareSegmentAndSendUdp6to4 g d (some v)) := by
  unfold gsoSoftwareSegmentAndSendUdp6to4
  refine .ite (fun _ => .done _) fun _ => .ite (fun _ => .done _) fun hip6 => ?_
  have hvalid : gsoValidIp6 d 17 := by simpa using (not_or.1 (not_or.1 hip6).2).2
  have h17 : IsTransport 17 := .inr rfl
  refine .ite (fun _ => .done _) fun _ => .ite (fun _ => gsoError6_output h17 hvalid (by decide)) fun _ =>
    .ite (fun _ => gsoError6_output h17 hvalid (by decide)) fun _ => ?_
  refine (gsoMap6to4WithIcmp_output h17 hvalid).bind fun r => ?_
  rcases r with handled | ⟨src4, dst4⟩
  · trivial
  · exact (OnlySends.of_silent reserveSegments_writes).bind fun nextId =>
      segmentLoop_sends (fun _ _ _ _ _ hr => buildUdp6to4_output hr) _ _ _ _

private theorem gsoTranslateTcp6to4_output : OnlySends (GsoOutput6 g d v) (gsoTranslateTcp6to4 g d (some v)) := by
  unfold gsoTranslateTcp6to4
  refine .ite (fun _ => .done _) fun _ => .ite (fun _ => .done _) fun hheader => .ite (fun _ => .done _) fun hip6 => ?_
  have hvalid : gsoValidIp6 d 6 := by simpa using (not_or.1 hip6).2
  have h6 : IsTransport 6 := .inl rfl
  refine .ite (fun _ => .done _) fun hl4 => .ite (fun _ => .done _) fun _ =>
    .ite (fun _ => gsoError6_output h6 hvalid (by decide)) fun _ =>
    .ite (fun _ => gsoError6_output h6 hvalid (by decide)) fun _ =>
    .ite (fun _ => gsoSoftwareSegmentAndSend6to4_output) fun hmax => ?_
  rw [not_or, not_or, Bool.not_eq_true', Bool.not_eq_false] at hl4
  have hl4 : 20 ≤ tcpHdrLen (d.drop 40) ∧ 40 + tcpHdrLen (d.drop 40) ≤ d.length ∧ _ :=
    ⟨Nat.not_lt.1 hl4.1, Nat.not_lt.1 hl4.2.1, hl4.2.2⟩
  have hmax : 20 + (d.drop 40).length ≤ 65535 := by
    have hlen : ((gsoPkt6 d v 6).data.drop (tcpHdrLen (d.drop 40))).length = d.length - 40 - tcpHdrLen (d.drop 40) := by
      rw [List.length_drop, show (gsoPkt6 d v 6).data = d.drop 40 from rfl, List.length_drop]
    have hmax : ¬65535 < 20 + tcpHdrLen (d.drop 40) + ((gsoPkt6 d v 6).data.drop (tcpHdrLen (d.drop 40))).length := hmax
    rw [hlen] at hmax
    rw [List.length_drop]
    omega
  have htcp : TcpTo4 d v := ⟨by omega, hvalid, hl4.1, hl4.2.1, hl4.2.2, hmax⟩
  refine (gsoMap6to4WithIcmp_output h6 hvalid).bind fun r => ?_
  rcases r with handled | ⟨src4, dst4⟩
  · trivial
  refine OnlySends.ite (fun _ => ?_) fun _ => ?_
  · refine OnlySends.bind (OnlySends.emit (.tcpHead src4 dst4 htcp ?_)) fun _ => ?_
    · have hhead := Nat.div_mul_le_self ((d.drop 40).drop (tcpHdrLen (d.drop 40))).length v.gsoSize.toNat
      rw [List.length_drop] at hhead
      show tcpHdrLen (d.drop 40) + ((d.drop 40).drop (tcpHdrLen (d.drop 40))).length / v.gsoSize.toNat *
        v.gsoSize.toNat ≤ _
      rw [List.length_drop]
      have hlen := List.length_drop (i := 40) (l := d)
      omega
    rw [ask_bind]
    exact ⟨trivial, fun ident => (OnlySends.emit (.tcpTail src4 dst4 ident htcp)).bind fun _ => .done _⟩
  · exact (OnlySends.of_silent gsoIdent_writes).bind fun r =>
      OnlySends.bind (OnlySends.emit (.tcp rfl rfl htcp)) fun _ => .done _

private theorem gsoTranslateUdp6to4_output : OnlySends (GsoOutput6 g d v) (gsoTranslateUdp6to4 g d (some v)) := by
  unfold gsoTranslateUdp6to4
  refine .ite (fun _ => .done _) fun _ => .ite (fun _ => .done _) fun _ => .ite (fun _ => .done _) fun hip6 => ?_
  have hvalid : gsoValidIp6 d 17 := by simpa using (not_or.1 (not_or.1 hip6).2).1
  have hfit : 48 ≤ d.length := Nat.not_lt.1 (not_or.1 hip6).1
  have h17 : IsTransport 17 := .inr rfl
  refine .ite (fun _ => .done _) fun _ => .ite (fun _ => gsoError6_output h17 hvalid (by decide)) fun _ =>
    .ite (fun _ => .done _) fun _ => .ite (fun _ => gsoError6_output h17 hvalid (by decide)) fun _ =>
    .ite (fun _ => .done _) fun _ => .ite (fun _ => gsoSoftwareSegmentAndSendUdp6to4_output) fun _ => ?_
  refine (gsoMap6to4WithIcmp_output h17 hvalid).bind fun r => ?_
  rcases r with handled | ⟨src4, dst4⟩
  · trivial
  · exact (OnlySends.of_silent gsoIdent_writes).bind fun r =>
      OnlySends.bind (OnlySends.emit (.udp rfl rfl hfit)) fun _ => .done _

end Gso6

/-! ### Aggregates to IPv6 -/

/-- What `gso_translate_tcp_4to6` has checked of an aggregate it translates. -/
structure TcpTo6 (g : Gcfg) (d : List Byte) (v : VnetHdr) (ihl : Nat) : Prop where
  hgso : v.gso = vnetGsoTcpv4
  hheader : 0 < gsoValidateHeader d.length v
  hvalid : gsoValidateIpv4Header g.endian d 6 = some ihl
  hmin : 20 ≤ tcpHdrLen (d.drop ihl)
  hfit : ihl + tcpHdrLen (d.drop ihl) ≤ d.length
  hvnet : gsoValidateTransportVnet d.length v ihl (tcpHdrLen (d.drop ihl)) 16

/-- What is written for an aggregate from IPv4. -/
inductive GsoOutput4 (g : Gcfg) (d : List Byte) (v : VnetHdr) : Option VnetHdr → List Byte → Prop where
  | error {proto : Byte} {ihl : Nat} (type code : Byte) (word : BitVec 32) (hproto : IsTransport proto)
      (hvalid : gsoValidateIpv4Header g.endian d proto = some ihl) (htype : type ∈ ([3, 11] : List Byte)) :
      GsoOutput4 g d v none (errorPacket4 g type code word (gsoPkt4 d v ihl proto))
  | segment {h : Ip6} {tos : Byte} (rest : List Byte) (hv : h.verTcFl = verTc tos) (hproto : IsTransport h.nextHeader) :
      GsoOutput4 g d v none (h.toBytes ++ rest)
  | tcp {h : Ip6} {tos : Byte} {ihl : Nat} {seed : BitVec 16} (hv : h.verTcFl = verTc tos) (hproto : h.nextHeader = 6)
      (htcp : TcpTo6 g d v ihl) : GsoOutput4 g d v
        (some (gsoNormalizeTcpOutput (gsoTcpVhdr v vnetGsoTcpv6 (BitVec.ofNat 16 ihl) 40)
          ((d.drop ihl).drop (tcpHdrLen (d.drop ihl))).length))
        (h.toBytes ++ put (d.drop ihl) 16 (be16 seed))
  | udp {h : Ip6} {tos : Byte} {seed : BitVec 16} (hv : h.verTcFl = verTc tos) (hproto : h.nextHeader = 17)
      (hgso : v.gso = vnetGsoUdpL4) (hfit : 28 ≤ d.length) :
      GsoOutput4 g d v (some (gsoUdpVhdr v 40)) (h.toBytes ++ gsoUdpSeed (d.drop 20) seed)

section Gso4

variable {v : VnetHdr}

private theorem gsoError4_output {proto type code : Byte} {word : BitVec 32} {ihl : Nat} (hproto : IsTransport proto)
    (hvalid : gsoValidateIpv4Header g.endian d proto = some ihl) (htype : type ∈ ([3, 11] : List Byte)) :
    OnlySends (GsoOutput4 g d v) (gsoError4 g type code word (gsoPkt4 d v ihl proto)) :=
  (OnlySends.ite (fun _ => .done _) fun _ => .emit (.error type code word hproto hvalid htype)).bind fun _ => .done _

private theorem gsoMap4to6WithIcmp_output {proto : Byte} {ihl : Nat} (hproto : IsTransport proto)
    (hvalid : gsoValidateIpv4Header g.endian d proto = some ihl) :
    OnlySends (GsoOutput4 g d v) (gsoMap4to6WithIcmp g (gsoPkt4 d v ihl proto)) :=
  gsoMap4to6WithIcmp_asks (fun _ => trivial) fun code _ =>
    OnlySends.ite (fun _ => .done _) fun _ => .emit (.error 3 code 0 hproto hvalid (by decide))

private theorem buildUdp4to6_output {e : Endian} {p : Pkt4} {udp : UdpHdr} {src6 dst6 : In6} {offset : Nat}
    {isLast : Bool} {nextId : BitVec 16} {seg : List Byte} {r : List Byte × BitVec 16}
    (hr : buildUdp4to6 e p udp src6 dst6 offset isLast nextId seg = some r) : GsoOutput4 g d v none r.1 := by
  unfold buildUdp4to6 at hr
  dsimp only at hr
  split at hr
  · cases hr
  · cases hr
    dsimp only
    rw [List.append_assoc]
    exact .segment _ rfl (.inr rfl)

private theorem gsoSoftwareSegmentAndSendUdp4to6_output :
    OnlySends (GsoOutput4 g d v) (gsoSoftwareSegmentAndSendUdp4to6 g d (some v)) := by
  unfold gsoSoftwareSegmentAndSendUdp4to6
  refine .ite (fun _ => .done _) fun _ => ?_
  rcases hvalid : gsoValidateIpv4Header g.endian d 17 with _ | ihl
  · trivial
  have h17 : IsTransport 17 := .inr rfl
  refine .ite (fun _ => .done _) fun _ => .ite (fun _ => gsoError4_output h17 hvalid (by decide)) fun _ =>
    .ite (fun _ => .done _) fun _ => .ite (fun _ => gsoError4_output h17 hvalid (by decide)) fun _ => ?_
  refine (gsoMap4to6WithIcmp_output h17 hvalid).bind fun r => ?_
  rcases r with handled | ⟨src6, dst6⟩
  · trivial
  · exact segmentLoop_sends (fun _ _ _ _ _ h => buildUdp4to6_output h) _ _ _ _

private theorem gsoTranslateTcp4to6_output : OnlySends (GsoOutput4 g d v) (gsoTranslateTcp4to6 g d (some v)) := by
  unfold gsoTranslateTcp4to6
  refine .ite (fun _ => .done _) fun hgso => .ite (fun _ => .done _) fun hheader => .ite (fun _ => .done _) fun _ => ?_
  rcases hvalid : gsoValidateIpv4Header g.endian d 6 with _ | ihl
  · trivial
  have h6 : IsTransport 6 := .inl rfl
  refine .ite (fun _ => .done _) fun _ => .ite (fun _ => .done _) fun hl4 =>
    .ite (fun _ => gsoError4_output h6 hvalid (by decide)) fun _ =>
    .ite (fun _ => gsoError4_output h6 hvalid (by decide)) fun _ => ?_
  rw [not_or, not_or, Bool.not_eq_true', Bool.not_eq_false] at hl4
  have htcp : TcpTo6 g d v ihl := ⟨not_not.1 hgso, by omega, hvalid, Nat.not_lt.1 hl4.1, Nat.not_lt.1 hl4.2.1, hl4.2.2⟩
  refine (gsoMap4to6WithIcmp_output h6 hvalid).bind fun r => ?_
  rcases r with handled | ⟨src6, dst6⟩
  · trivial
  · exact OnlySends.bind (OnlySends.emit (.tcp rfl rfl htcp)) fun _ => .done _

private theorem gsoTranslateUdp4to6_output : OnlySends (GsoOutput4 g d v) (gsoTranslateUdp4to6 g d (some v)) := by
  unfold gsoTranslateUdp4to6
  refine .ite (fun _ => .done _) fun hgso => .ite (fun _ => .done _) fun _ => .ite (fun _ => .done _) fun _ => ?_
  rcases hvalid : gsoValidateIpv4Header g.endian d 17 with _ | ihl
  · trivial
  have h17 : IsTransport 17 := .inr rfl
  refine .ite (fun _ => .done _) fun hl4 => .ite (fun _ => gsoError4_output h17 hvalid (by decide)) fun _ =>
    .ite (fun _ => .done _) fun _ => .ite (fun _ => .done _) fun _ =>
    .ite (fun _ => gsoError4_output h17 hvalid (by decide)) fun _ =>
    .ite (fun _ => gsoSoftwareSegmentAndSendUdp4to6_output) fun huso => ?_
  have hihl : ihl = 20 := not_not.1 (not_or.1 huso).2
  have hfit : 28 ≤ d.length := by
    have := (not_or.1 hl4).1
    omega
  refine (gsoMap4to6WithIcmp_output h17 hvalid).bind fun r => ?_
  rcases r with handled | ⟨src6, dst6⟩
  · trivial
  · subst hihl
    exact OnlySends.bind (OnlySends.emit (.udp rfl rfl (not_not.1 hgso) hfit)) fun _ => .done _

end Gso4

/-! ### The two entry points -/

private theorem dropRefused_output {P : Option VnetHdr → List Byte → Prop} {len : Nat} {prog : PktProg Bool}
    (h : OnlySends P prog) : OnlySends P (dropRefused len prog) :=
  h.bind fun r => by
    cases r
    · exact OnlySends.statsDrop _
    · trivial

/-- **What `handle_ip4` writes.** -/
theorem handleIp4_output {offload : Bool} : OnlySends (fun out packet =>
    (isGso vhdr = false ∧ ∃ p, parseIp4 d vhdr false = .ok p ∧ Valid4 g p ∧ Output4 g p out packet) ∨
    ∃ v, vhdr = some v ∧ isGso vhdr ∧ GsoOutput4 g d v out packet) (handleIp4 g offload d vhdr) := by
  refine .ite (fun hgso => dropRefused_output ?_) fun hgso => ?_
  · cases vhdr with
    | none => cases hgso
    | some v =>
      suffices h : OnlySends (GsoOutput4 g d v) _ from h.mono fun out packet h => .inr ⟨v, rfl, hgso, h⟩
      exact .ite (fun _ => gsoTranslateTcp4to6_output) fun _ => .ite (fun _ => gsoTranslateUdp4to6_output) fun _ =>
        .done _
  · exact handlePlain4_output.mono fun out packet h => .inl ⟨by simpa using hgso, h⟩

/-- **What `handle_ip6` writes.** -/
theorem handleIp6_output {offload : Bool} : OnlySends (fun out packet =>
    (isGso vhdr = false ∧ ∃ p, (parseIp6 d vhdr false = .ok p ∧ Valid6 g p ∧ Output6 g p out packet) ∨
      (∃ ptr, parseIp6 d vhdr false = .routing ptr p) ∧ ¬IcmpOther6 p ∧
        ∃ word, out = none ∧ packet = errorPacket6 g 4 0 word p) ∨
    ∃ v, vhdr = some v ∧ isGso vhdr ∧ GsoOutput6 g d v out packet) (handleIp6 g offload d vhdr) := by
  refine .ite (fun hgso => dropRefused_output ?_) fun hgso => ?_
  · cases vhdr with
    | none => cases hgso
    | some v =>
      suffices h : OnlySends (GsoOutput6 g d v) _ from h.mono fun out packet h => .inr ⟨v, rfl, hgso, h⟩
      exact .ite (fun _ => gsoTranslateTcp6to4_output) fun _ => .ite (fun _ => gsoTranslateUdp6to4_output) fun _ =>
        .done _
  · exact handlePlain6_output.mono fun out packet h => .inl ⟨by simpa using hgso, h⟩

/-! ### Translated ICMPv6 errors -/

/-- An accepted ICMPv6 error for somebody else that is translated. -/
structure TranslatedError6 (g : Gcfg) (ans : (op : PktOp) → op.Ans) (p : Pkt6) : Prop where
  hvalid : Valid6 g p
  hdest : p.ip6.dest ≠ g.localAddr6
  hhops : p.ip6.hopLimit ≠ 1
  hicmp : ¬DataPacket6 p
  htranslates : TranslatesError6 g ans p

section Errors6

variable {p : Pkt6} {offload : Bool}

theorem handlePlain6_valid (hparse : parseIp6 d vhdr false = .ok p) (hvalid : Valid6 g p) : handlePlain6 g d vhdr =
    if p.ip6.dest = g.localAddr6 then if p.dataProto = 58 then hostHandleIcmp6 g p else hostSendIcmp6Error g 4 1 6 p
    else if p.ip6.hopLimit = 1 then hostSendIcmp6Error g 3 0 0 p
    else if DataPacket6 p then xlate6to4Data g p
    else xlate6to4IcmpError g p := by
  have hheader : ¬(p.ip6.hopLimit = 0 ∨ p.headerLen + p.data.length ≠ p.ip6.payloadLength.toNat) := by
    rw [not_or, not_not]
    exact ⟨hvalid.hhops, hvalid.hlen⟩
  unfold handlePlain6
  rw [hparse]
  dsimp only
  rw [if_neg hheader, if_neg fun h => h.2 (hvalid.hicmp h.1)]
  rfl

private theorem handleIp6_errorEq (hgso : isGso vhdr = false) (hparse : parseIp6 d vhdr false = .ok p)
    (hvalid : Valid6 g p) (hdest : p.ip6.dest ≠ g.localAddr6) (hhops : p.ip6.hopLimit ≠ 1) (hicmp : ¬DataPacket6 p) :
    handleIp6 g offload d vhdr = xlate6to4IcmpError g p := by
  unfold handleIp6
  rw [hgso, if_neg Bool.false_ne_true, handlePlain6_valid hparse hvalid, if_neg hdest, if_neg hhops, if_neg hicmp]

theorem TranslatedError6.handleIp6_eq (h : TranslatedError6 g ans p) (hgso : isGso vhdr = false)
    (hparse : parseIp6 d vhdr false = .ok p) : handleIp6 g offload d vhdr = xlate6to4IcmpError g p :=
  handleIp6_errorEq hgso hparse h.hvalid h.hdest h.hhops h.hicmp

theorem translatedError6 {packet : List Byte} (hgso : isGso vhdr = false) (hparse : parseIp6 d vhdr false = .ok p)
    (hvalid : Valid6 g p) (hdest : p.ip6.dest ≠ g.localAddr6) (hhops : p.ip6.hopLimit ≠ 1) (hicmp : ¬DataPacket6 p)
    (hmem : packet ∈ written ans (handleIp6 g offload d vhdr)) : TranslatedError6 g ans p := by
  rw [handleIp6_errorEq hgso hparse hvalid hdest hhops hicmp] at hmem
  exact ⟨hvalid, hdest, hhops, hicmp, (xlate6to4IcmpError_written p).1 (List.ne_nil_of_mem hmem)⟩

end Errors6

end Tayga
