import Tayga.Codec
import Tayga.Parsing
import Tayga.Written

/-!
# Fragmentation Needed for aggregates and for packets

The four entry points for IPv4 aggregates and the data path for plain packets answer a packet with DF set that will not
fit the MTU with Fragmentation Needed.  Each is said exactly (`entry_fragNeeded`, `plain_fragNeeded`): the software and
UDP entry points count the IPv4 options that the translation drops, and all four test the size before the destination
and the mapping of the addresses, the TCP ones before the TTL as well.  So an aggregate and its largest segment as a
packet of its own are answered alike only outside these cases (`fragNeeded_agrees`).
-/

namespace Tayga

open Program

variable {g : Gcfg} {d : List Byte} {v : VnetHdr} {ans : (op : PktOp) → op.Ans}

/-! ### Fragmentation Needed -/

/-- An ICMP Fragmentation Needed with an MTU. -/
def IsFragNeeded (mtu : BitVec 32) (packet : List Byte) : Prop :=
  version packet = 4 ∧ getU8 packet 9 = 1 ∧ getU8 packet 20 = 3 ∧ getU8 packet 21 = 4 ∧ getBe32 packet 24 = mtu

instance {mtu : BitVec 32} : DecidablePred (IsFragNeeded mtu) := fun _ => inferInstanceAs (Decidable (_ ∧ _))

/-- A program sends Fragmentation Needed with an MTU. -/
def SendsFragNeeded {α : Type} (ans : (op : PktOp) → op.Ans) (prog : PktProg α) (mtu : BitVec 32) : Prop :=
  ∃ packet ∈ written ans prog, IsFragNeeded mtu packet

instance {α : Type} {prog : PktProg α} {mtu : BitVec 32} : Decidable (SendsFragNeeded ans prog mtu) :=
  inferInstanceAs (Decidable (∃ packet ∈ written ans prog, IsFragNeeded mtu packet))

/-- What is no ICMP packet is an IPv6 packet. -/
theorem Wrote4to6.version_eq {R : Byte → Byte → Prop} {Q : Byte → Prop} {packet : List Byte}
    (h : Wrote4to6 R Q packet) (hr : ∀ type code, ¬R type code) : version packet = 6 := by
  cases h with
  | icmp rest hv h => exact absurd h (hr _ _)
  | ip6 rest hv hq => exact Ip6.version_toBytes hv _
  | frag rest hv hn hq => exact Ip6.version_toBytes hv _

/-- All but Fragmentation Needed. -/
def otherError (type code : Byte) : Prop := (type, code) ≠ (3, 4)

/-- The ICMP header of a packet. -/
private theorem icmp4_of_toBytes (h : Ip4) (icmp : Icmp) (rest : List Byte) :
    getU8 (h.toBytes ++ (icmp.toBytes ++ rest)) 20 = icmp.type ∧
    getU8 (h.toBytes ++ (icmp.toBytes ++ rest)) 21 = icmp.code ∧
    getBe32 (h.toBytes ++ (icmp.toBytes ++ rest)) 24 = icmp.word :=
  ⟨rfl, rfl, ofBytes4_byte4 icmp.word⟩

private theorem not_fragNeeded_of_version {packet : List Byte} {mtu : BitVec 32} (h : version packet = 6) :
    ¬IsFragNeeded mtu packet := by
  rintro ⟨hversion, -⟩
  rw [h] at hversion
  exact absurd hversion (by decide)

private theorem Wrote4to6.not_fragNeeded {Q : Byte → Prop} {packet : List Byte} {mtu : BitVec 32}
    (h : Wrote4to6 otherError Q packet) : ¬IsFragNeeded mtu packet := by
  cases h with
  | @icmp h icmp rest hv hr =>
    rintro ⟨hversion, hproto, htype, hcode, hword⟩
    obtain ⟨ht, hc, -⟩ := icmp4_of_toBytes h icmp rest
    exact hr (Prod.ext (ht ▸ htype) (hc ▸ hcode))
  | ip6 rest hv _ => exact not_fragNeeded_of_version (Ip6.version_toBytes hv _)
  | frag rest hv _ _ => exact not_fragNeeded_of_version (Ip6.version_toBytes hv _)

private theorem not_sendsFragNeeded {α : Type} {prog : PktProg α} {mtu : BitVec 32}
    (h : OnlyWrites (fun packet => ¬IsFragNeeded mtu packet) prog) : ¬SendsFragNeeded ans prog mtu := by
  rintro ⟨packet, hmem, hneeded⟩
  exact h.mem hmem hneeded

/-- Other errors and IPv6 packets. -/
private theorem othersOnly {α : Type} {prog : PktProg α} {mtu : BitVec 32}
    (h : OnlyWrites (Wrote4to6 otherError fun _ => True) prog) :
    OnlyWrites (fun packet => ¬IsFragNeeded mtu packet) prog :=
  h.mono fun _ h => h.not_fragNeeded

/-- The Fragmentation Needed the translator sends about a packet that is no ICMP packet. -/
private theorem hostSendIcmp4Error_fragNeeded (g : Gcfg) (word : BitVec 32) {p : Pkt4} (hp : p.dataProto ≠ 1) :
    ∃ packet, hostSendIcmp4Error g 3 4 word p = emit none packet ∧ ∀ mtu, IsFragNeeded mtu packet ↔ mtu = word := by
  unfold hostSendIcmp4Error
  rw [if_neg fun h => hp h.1]
  refine ⟨_, rfl, fun mtu => ?_⟩
  unfold IsFragNeeded
  rw [List.append_assoc]
  obtain ⟨htype, hcode, hword⟩ := icmp4_of_toBytes (Ip4.withCksum _ _) ⟨_, _, _, _⟩ _
  rw [htype, hcode, hword, Ip4.version_toBytes rfl, (Ip4.getU8_toBytes _ _).2]
  exact ⟨fun h => h.2.2.2.2.symm, fun h => ⟨rfl, rfl, rfl, rfl, h.symm⟩⟩

private theorem sendsFragNeeded_emit (ans : (op : PktOp) → op.Ans) {packet : List Byte} {word mtu : BitVec 32}
    (h : ∀ mtu, IsFragNeeded mtu packet ↔ mtu = word) : SendsFragNeeded ans (emit none packet) mtu ↔ mtu = word := by
  rw [← h]
  constructor
  · rintro ⟨q, hq, hfn⟩
    rw [List.mem_singleton.1 hq] at hfn
    exact hfn
  · exact fun hfn => ⟨packet, List.mem_singleton.2 rfl, hfn⟩

/-- A mapping writes nothing. -/
private theorem sendsFragNeeded_map {α : Type} {addr4 : In4} {f : Except Error In6 → PktProg α} {mtu : BitVec 32} :
    SendsFragNeeded ans (.call (.mapIp4ToIp6 addr4) f) mtu ↔ SendsFragNeeded ans (f (ans (.mapIp4ToIp6 addr4))) mtu :=
  Iff.rfl

/-! ### Plain packets -/

/-- The mapper has an IPv6 address for `addr4`. -/
def Mapped (ans : (op : PktOp) → op.Ans) (addr4 : In4) : Prop := ∃ addr6 : In6, ans (.mapIp4ToIp6 addr4) = .ok addr6

/-- An unfragmented packet with DF set. -/
def DontFragment (h : Ip4) : Prop := h.flagsOffset &&& (ip4FMask ||| ip4FMf) = 0 ∧ h.flagsOffset &&& ip4FDf ≠ 0

/-- The MTU of a Fragmentation Needed. -/
def fragMtu (g : Gcfg) : BitVec 32 := BitVec.ofNat 32 (g.mtu - mtuAdj)

private theorem otherErrors : OtherErrors otherError := fun _ _ h => h

/-- **The data path**: Fragmentation Needed once both addresses are mapped, if the packet does not fit. -/
theorem xlate4to6Data_fragNeeded {p : Pkt4} (hp : p.dataProto ≠ 1) (hdf : DontFragment p.ip4) {mtu : BitVec 32} :
    SendsFragNeeded ans (xlate4to6Data g p) mtu ↔
    mtu = fragMtu g ∧ (Mapped ans p.ip4.dest ∧ Mapped ans p.ip4.src) ∧ g.mtu < 40 + p.data.length := by
  by_cases hbig : g.mtu < 40 + p.data.length
  · unfold xlate4to6Data
    rw [sendsFragNeeded_map]
    rcases hdest : ans (.mapIp4ToIp6 p.ip4.dest) with e | dest
    · have hnone : ¬Mapped ans p.ip4.dest := by
        rintro ⟨a, ha⟩
        rw [hdest] at ha
        cases ha
      refine iff_of_false (not_sendsFragNeeded (othersOnly ?_)) fun h => hnone h.2.1.1
      cases e with
      | reject => exact (OnlyWrites.statsDrop _).bind fun _ => hostSendIcmp4Error_writes (otherErrors _ _ (by decide))
      | drop => exact OnlyWrites.statsDrop _
      | local4 => exact OnlyWrites.statsDrop _
    dsimp only
    rw [sendsFragNeeded_map]
    rcases hsrc : ans (.mapIp4ToIp6 p.ip4.src) with e | src
    · have hnone : ¬Mapped ans p.ip4.src := by
        rintro ⟨a, ha⟩
        rw [hsrc] at ha
        cases ha
      refine iff_of_false (not_sendsFragNeeded (othersOnly ?_)) fun h => hnone h.2.1.2
      cases e with
      | reject => exact (OnlyWrites.statsDrop _).bind fun _ => hostSendIcmp4Error_writes (otherErrors _ _ (by decide))
      | drop => exact OnlyWrites.statsDrop _
      | local4 => exact OnlyWrites.statsDrop _
    dsimp only
    rw [if_pos hdf.1, if_pos hdf.2, if_pos hbig]
    obtain ⟨packet, hpacket, hfn⟩ := hostSendIcmp4Error_fragNeeded g (fragMtu g) hp
    rw [show BitVec.ofNat 32 (g.mtu - mtuAdj) = fragMtu g from rfl, hpacket, sendsFragNeeded_emit ans hfn]
    exact ⟨fun h => ⟨h, ⟨⟨dest, hdest⟩, src, hsrc⟩, hbig⟩, fun h => h.1⟩
  · refine iff_of_false (not_sendsFragNeeded (othersOnly ?_)) fun h => hbig h.2.2
    exact xlate4to6Data_writes otherErrors (fun h => absurd h.2.2 hbig) trivial

/-- The packet is sent on to IPv6, if it fits: it has hops left, is not for the translator and both its addresses are
mapped. -/
structure Forwardable (g : Gcfg) (ans : (op : PktOp) → op.Ans) (h : Ip4) : Prop where
  httl : h.ttl ≠ 0 ∧ h.ttl ≠ 1
  hdest : h.dest ≠ g.localAddr4
  hmapped : Mapped ans h.dest ∧ Mapped ans h.src

/-- A valid IPv4 header of `ihl` bytes in front of a transport header. -/
structure ValidHeader4 (e : Endian) (d : List Byte) (proto : Byte) (ihl : Nat) : Prop where
  hversion : (Ip4.ofBytes d).verIhl >>> 4 = 4
  hihl : ihl = ((Ip4.ofBytes d).verIhl &&& 0x0f).toNat * 4
  hmin : 20 ≤ ihl
  hfit : ihl ≤ d.length
  hproto : (Ip4.ofBytes d).proto = proto
  hcksum : ipChecksum e (d.take ihl) = 0
  hsrc : validateIp4Addr (Ip4.ofBytes d).src ≠ some .drop
  hdest : validateIp4Addr (Ip4.ofBytes d).dest ≠ some .drop

theorem Ip4.ofBytes_append {f data : List Byte} (h : 20 ≤ f.length) : ofBytes (f ++ data) = ofBytes f := by
  simp (disch := omega) only [ofBytes, getBe16, getBe32, getU8_append_left]

theorem Ip4.ofBytes_take {ihl : Nat} (hmin : 20 ≤ ihl) (hfit : ihl ≤ d.length) : ofBytes (d.take ihl) = ofBytes d := by
  have hlen : 20 ≤ (d.take ihl).length := by
    rw [List.length_take]
    omega
  conv_rhs => rw [← List.take_append_drop ihl d]
  rw [ofBytes_append hlen]

/-- TCP and UDP. -/
def IsTransport (proto : Byte) : Prop := proto = 6 ∨ proto = 17

theorem IsTransport.ne_icmp {proto : Byte} (h : IsTransport proto) : proto ≠ 1 ∧ proto ≠ 58 := by
  rcases h with rfl | rfl <;> decide

theorem parseIp4_of_valid {proto : Byte} {ihl : Nat} {vhdr : Option VnetHdr} (h : ValidHeader4 g.endian d proto ihl)
    (hproto : IsTransport proto) (hwhole : (Ip4.ofBytes d).flagsOffset &&& (ip4FMask ||| ip4FMf) = 0)
    (hlen : (Ip4.ofBytes d).length.toNat = d.length) :
    parseIp4 d vhdr false = .ok ⟨d.take ihl, d.drop ihl, proto, vhdr⟩ := by
  have hmin := h.hmin
  have hfit := h.hfit
  have hmax : d.length < 65536 := hlen ▸ (Ip4.ofBytes d).length.isLt
  have hoff : (Ip4.ofBytes d).flagsOffset &&& ip4FMask = 0 := and_eq_zero_of_and_or hwhole
  have hmf : (Ip4.ofBytes d).flagsOffset &&& ip4FMf = 0 := and_eq_zero_of_and_or (BitVec.or_comm _ _ ▸ hwhole)
  have hrefused : proto ≠ 1 ∧ ¬(proto = 0 ∨ proto = 43 ∨ proto = 44 ∨ proto = 58 ∨ proto = 60) := by
    rcases hproto with rfl | rfl <;> decide
  have hvalid : ¬((Ip4.ofBytes d).verIhl >>> 4 ≠ 4 ∨ ihl < 20 ∨ d.length < ihl ∨ (Ip4.ofBytes d).length.toNat < ihl ∨
      validateIp4Addr (Ip4.ofBytes d).src = some .drop ∨ validateIp4Addr (Ip4.ofBytes d).dest = some .drop) := by
    rintro (h' | h' | h' | h' | h' | h')
    · exact h' h.hversion
    · omega
    · omega
    · omega
    · exact h.hsrc h'
    · exact h.hdest h'
  unfold parseIp4
  dsimp only
  rw [← h.hihl, if_neg (by omega), if_neg hvalid, h.hproto, if_neg hrefused.1, if_neg hrefused.2, hlen,
    List.take_length, if_neg fun h => h.2.1 hmf, if_neg]
  rw [hoff, List.length_drop]
  show ¬65535 < 0 * 8 + (d.length - ihl)
  omega

/-- **A plain packet**: Fragmentation Needed if it is forwardable and does not fit. -/
theorem plain_fragNeeded {offload : Bool} {proto : Byte} {ihl : Nat} {vhdr : Option VnetHdr}
    (hplain : isGso vhdr = false) (h : ValidHeader4 g.endian d proto ihl) (hproto : IsTransport proto)
    (hdf : DontFragment (Ip4.ofBytes d)) (hlen : (Ip4.ofBytes d).length.toNat = d.length) {mtu : BitVec 32} :
    SendsFragNeeded ans (handleIp4 g offload d vhdr) mtu ↔
    mtu = fragMtu g ∧ Forwardable g ans (Ip4.ofBytes d) ∧ g.mtu < 40 + (d.length - ihl) := by
  have hip4 : (⟨d.take ihl, d.drop ihl, proto, vhdr⟩ : Pkt4).ip4 = Ip4.ofBytes d := Ip4.ofBytes_take h.hmin h.hfit
  have hne : proto ≠ 1 := by rcases hproto with rfl | rfl <;> decide
  have hheaderLen : (⟨d.take ihl, d.drop ihl, proto, vhdr⟩ : Pkt4).headerLen + (d.drop ihl).length = d.length := by
    unfold Pkt4.headerLen
    rw [List.length_take_of_le h.hfit, List.length_drop]
    have := h.hfit
    omega
  unfold handleIp4 handlePlain4
  rw [hplain, parseIp4_of_valid h hproto hdf.1 hlen]
  dsimp only
  rw [hip4, hheaderLen, hlen, h.hcksum, if_neg (by decide)]
  by_cases hzero : (Ip4.ofBytes d).ttl = 0
  · rw [if_pos (.inl hzero)]
    exact iff_of_false (not_sendsFragNeeded (.statsDrop _)) fun h => h.2.1.httl.1 hzero
  rw [if_neg (by simpa using hzero), if_neg fun h => hne h.1]
  by_cases hdest : (Ip4.ofBytes d).dest = g.localAddr4
  · rw [if_pos hdest, if_neg hne]
    refine iff_of_false (not_sendsFragNeeded (othersOnly ?_)) fun h => h.2.1.hdest hdest
    exact hostSendIcmp4Error_writes (otherErrors _ _ (by decide))
  rw [if_neg hdest]
  by_cases hone : (Ip4.ofBytes d).ttl = 1
  · rw [if_pos hone]
    refine iff_of_false (not_sendsFragNeeded (othersOnly ?_)) fun h => h.2.1.httl.2 hone
    exact hostSendIcmp4Error_writes (otherErrors _ _ (by decide))
  rw [if_neg hone, if_pos (.inl hne), xlate4to6Data_fragNeeded hne (by rw [hip4]; exact hdf), hip4, List.length_drop]
  exact and_congr_right fun _ => and_congr_left fun _ => ⟨fun h => ⟨⟨hzero, hone⟩, hdest, h⟩, fun h => h.hmapped⟩

/-! ### Aggregates -/

theorem gsoValidateIpv4Header_valid {e : Endian} {proto : Byte} {ihl : Nat}
    (h : gsoValidateIpv4Header e d proto = some ihl) :
    ValidHeader4 e d proto ihl ∧ (Ip4.ofBytes d).flagsOffset &&& (ip4FMask ||| ip4FMf) = 0 := by
  unfold gsoValidateIpv4Header at h
  dsimp only at h
  split at h
  · cases h
  split at h
  · cases h
  next hip4 =>
  split at h
  · cases h
  next hheader =>
  split at h
  · cases h
  cases h
  rw [not_or, not_or, not_or, not_not, not_not, not_not, not_not] at hip4
  rw [not_or, not_or, not_or, not_or, not_not] at hheader
  exact ⟨⟨hip4.1, rfl, Nat.not_lt.1 hheader.1, Nat.not_lt.1 hheader.2.1, hip4.2.1, hheader.2.2.1, hheader.2.2.2.1,
    hheader.2.2.2.2⟩, hip4.2.2.2⟩

/-- The four entry points for IPv4 aggregates. -/
inductive GsoEntry where
  | tcp
  | tcpSoftware
  | udp
  | udpSoftware
deriving Repr, DecidableEq

namespace GsoEntry

/-- `gso_translate_tcp_4to6`, `gso_software_segment_and_send_4to6` and the same for UDP. -/
def run (entry : GsoEntry) (g : Gcfg) (d : List Byte) (vhdr : Option VnetHdr) : PktProg Bool :=
  match entry with
  | tcp => gsoTranslateTcp4to6 g d vhdr
  | tcpSoftware => gsoSoftwareSegmentAndSend4to6 g d vhdr
  | udp => gsoTranslateUdp4to6 g d vhdr
  | udpSoftware => gsoSoftwareSegmentAndSendUdp4to6 g d vhdr

/-- The transport protocol. -/
def proto : GsoEntry → Byte
  | tcp | tcpSoftware => 6
  | udp | udpSoftware => 17

end GsoEntry

theorem GsoEntry.isTransport_proto (entry : GsoEntry) : IsTransport entry.proto := by
  cases entry
  · exact .inl rfl
  · exact .inl rfl
  · exact .inr rfl
  · exact .inr rfl

/-- A TCP aggregate: its virtio header fits, and so does its TCP header of `l4Len` bytes.  Only the software path takes
one with a complete checksum. -/
structure TcpAggregate (d : List Byte) (v : VnetHdr) (software : Bool) (ihl l4Len : Nat) : Prop where
  htype : v.gso = vnetGsoTcpv4
  hl4 : l4Len = tcpHdrLen (d.drop ihl)
  hmin : 20 ≤ l4Len
  hfit : ihl + l4Len ≤ d.length
  hhdrLen : ihl + l4Len ≤ v.hdrLen.toNat
  hvnet : (software = false ∨ v.needsCsum) → gsoValidateTransportVnet d.length v ihl l4Len 16

/-- A UDP aggregate: its virtio header, its lengths and its number of segments fit. -/
structure UdpAggregate (d : List Byte) (v : VnetHdr) (ihl l4Len : Nat) : Prop where
  htype : v.gso = vnetGsoUdpL4
  hl4 : l4Len = 8
  hfit : ihl + l4Len ≤ d.length
  hvnet : gsoValidateTransportVnet d.length v ihl 8 6
  hsized : gsoUdpSized (d.drop ihl) v.gsoSize.toNat

/-- A well-formed aggregate for an entry point, with `ihl` bytes of IPv4 header and `l4Len` of transport header. -/
structure Aggregate4 (entry : GsoEntry) (g : Gcfg) (d : List Byte) (v : VnetHdr) (ihl l4Len : Nat) : Prop where
  hheader : gsoValidateHeader d.length v = 1
  hip4 : gsoValidateIpv4Header g.endian d entry.proto = some ihl
  hl4 : match entry with
    | .tcp => TcpAggregate d v false ihl l4Len
    | .tcpSoftware => TcpAggregate d v true ihl l4Len
    | .udp | .udpSoftware => UdpAggregate d v ihl l4Len

/-- The transport bytes of the largest segment. -/
def largestL4 (d : List Byte) (v : VnetHdr) (ihl l4Len : Nat) : Nat :=
  l4Len + maxSeg (d.length - ihl - l4Len) v.gsoSize.toNat

private theorem gsoTooBig4_iff (v : VnetHdr) (l3Len l4Len : Nat) {proto : Byte} {ihl : Nat}
    (hip4 : ValidHeader4 g.endian d proto ihl) (hmtu : mtuMin ≤ g.mtu) :
    gsoTooBig4 g (gsoPkt4 d v ihl proto) l3Len l4Len v.gsoSize.toNat ↔
    (Ip4.ofBytes d).flagsOffset &&& ip4FDf ≠ 0 ∧ g.mtu < l3Len + 20 + largestL4 d v ihl l4Len := by
  have heq : (gsoPkt4 d v ihl proto).ip4 = Ip4.ofBytes d := Ip4.ofBytes_take hip4.hmin hip4.hfit
  have hlen : ((gsoPkt4 d v ihl proto).data.drop l4Len).length = d.length - ihl - l4Len := by
    show ((d.drop ihl).drop l4Len).length = _
    rw [List.length_drop, List.length_drop]
  unfold gsoTooBig4 largestL4
  rw [heq, hlen, decide_eq_true_iff]
  unfold mtuMin at hmtu
  unfold mtuAdj
  refine and_congr_right fun _ => ?_
  omega

/-- The size test of an entry point, for a largest segment of `size` transport bytes. -/
def GsoEntry.TooBig (entry : GsoEntry) (g : Gcfg) (h : Ip4) (ihl size : Nat) : Prop :=
  match entry with
  | .tcp => g.mtu < 40 + size
  | .tcpSoftware => g.mtu < ihl + 20 + size
  | .udp | .udpSoftware => ¬h.ttl ≤ 1 ∧ g.mtu < ihl + 20 + size

instance {entry : GsoEntry} {h : Ip4} {ihl size : Nat} : Decidable (entry.TooBig g h ihl size) :=
  match entry with
  | .tcp => inferInstanceAs (Decidable (_ < _))
  | .tcpSoftware => inferInstanceAs (Decidable (_ < _))
  | .udp => inferInstanceAs (Decidable (_ ∧ _))
  | .udpSoftware => inferInstanceAs (Decidable (_ ∧ _))

/-- What an entry point does once the mapper was asked: it passes on that an address is not mapped, or sends IPv6
packets.  Segments of up to 65535 transport bytes are sent. -/
structure AfterMap4 (ans : (op : PktOp) → op.Ans) (size : Nat) (f : Except Bool (In6 × In6) → PktProg Bool) : Prop where
  herror : ∀ handled, f (.error handled) = .done handled
  hversion : ∀ r, OnlyWrites (fun packet => version packet = 6) (f (.ok r))
  hsends : size ≤ 65535 → ∀ r, written ans (f (.ok r)) ≠ []

/-- An entry point for the aggregate `p` checks it, maps its addresses and sends it. -/
def Checks4 (g : Gcfg) (ans : (op : PktOp) → op.Ans) (p : Pkt4) (tooBig : Prop) [Decidable tooBig] (size : Nat)
    (prog : PktProg Bool) : Prop :=
  ∃ f, AfterMap4 ans size f ∧ prog =
    if p.ip4.flagsOffset &&& ip4FDf ≠ 0 ∧ tooBig then gsoError4 g 3 4 (fragMtu g) p
    else if p.ip4.ttl ≤ 1 then gsoError4 g 11 0 0 p
    else gsoMap4to6WithIcmp g p >>= f

/-- A check made behind another one, as one made in front. -/
theorem ite_front {α : Type} {first second : Prop} [Decidable first] [Decidable second] {x y z : α} :
    (if first then x else if second then y else z) = if ¬first ∧ second then y else if first then x else z := by
  by_cases hfirst : first
  · rw [if_pos hfirst, if_neg fun h => h.1 hfirst, if_pos hfirst]
  · rw [if_neg hfirst, if_neg hfirst]
    exact if_congr (and_iff_right hfirst).symm rfl rfl

section Entries

variable {ihl l4Len : Nat} {mtu : BitVec 32}

private theorem emit6_onlyWrites {vhdr : Option VnetHdr} {h : Ip6} {tc : Byte} (hv : h.verTcFl = verTc tc)
    (rest : List Byte) :
    OnlyWrites (fun packet => version packet = 6) (emit vhdr (h.toBytes ++ rest) >>= fun _ => .done true) :=
  OnlyWrites.bind (OnlyWrites.emit (Ip6.version_toBytes hv rest)) fun _ => .done _

theorem emit_ne_nil {vhdr : Option VnetHdr} {packet : List Byte} :
    written ans (emit vhdr packet >>= fun _ => .done true) ≠ [] := List.cons_ne_nil _ _

theorem segmentLoop_ne_nil {gsoSize n offset : Nat} {build : SegmentBuilder} {nextId : BitVec 16} {payload : List Byte}
    (hbuild : build offset (payload.drop gsoSize).isEmpty nextId (payload.take gsoSize) ≠ none) :
    written ans (segmentLoop gsoSize build (n + 1) offset nextId payload) ≠ [] := by
  obtain ⟨r, hr⟩ := Option.ne_none_iff_exists'.1 hbuild
  unfold segmentLoop
  dsimp only
  rw [hr]
  exact List.cons_ne_nil _ _

theorem gsoPkt4_ip4 {proto : Byte} (h : ValidHeader4 g.endian d proto ihl) :
    (gsoPkt4 d v ihl proto).ip4 = Ip4.ofBytes d :=
  Ip4.ofBytes_take h.hmin h.hfit

section Build

variable {e : Endian} {p : Pkt4} {src6 dst6 : In6} {offset : Nat} {isLast : Bool} {nextId : BitVec 16} {seg : List Byte}
  {r : List Byte × BitVec 16}

theorem buildTcp4to6_version {tcp : TcpHdr}
    (h : buildTcp4to6 e p tcp l4Len src6 dst6 offset isLast nextId seg = some r) : version r.1 = 6 :=
  (buildTcp4to6_writes (R := fun _ _ => False) (Q := fun _ => True) trivial h).version_eq fun _ _ h => h

theorem buildTcp4to6_ne_none {tcp : TcpHdr} (h : l4Len + seg.length ≤ 65535) :
    buildTcp4to6 e p tcp l4Len src6 dst6 offset isLast nextId seg ≠ none := by
  unfold buildTcp4to6
  dsimp only
  rw [if_neg (by omega)]
  exact Option.some_ne_none _

theorem buildUdp4to6_version {udp : UdpHdr} (h : buildUdp4to6 e p udp src6 dst6 offset isLast nextId seg = some r) :
    version r.1 = 6 :=
  (buildUdp4to6_writes (R := fun _ _ => False) (Q := fun _ => True) trivial h).version_eq fun _ _ h => h

theorem buildUdp4to6_ne_none {udp : UdpHdr} (h : 8 + seg.length ≤ 65535) :
    buildUdp4to6 e p udp src6 dst6 offset isLast nextId seg ≠ none := by
  unfold buildUdp4to6
  dsimp only
  rw [if_neg (by omega)]
  exact Option.some_ne_none _

end Build

/-- The first segment of the payload behind `l4Len` bytes of transport header. -/
theorem length_firstSegment (d : List Byte) (v : VnetHdr) (ihl l4Len : Nat) :
    l4Len + (((d.drop ihl).drop l4Len).take v.gsoSize.toNat).length = largestL4 d v ihl l4Len := by
  rw [List.length_take, List.length_drop, List.length_drop]
  unfold largestL4 maxSeg
  split <;> omega

/-- What an entry point sends once the addresses are mapped, the IPv6 source and destination. -/
def GsoEntry.send (entry : GsoEntry) (g : Gcfg) (d : List Byte) (v : VnetHdr) (ihl l4Len : Nat) (r : In6 × In6) :
    PktProg Bool :=
  let p := gsoPkt4 d v ihl entry.proto
  let payload := p.data.drop l4Len
  let ip6 := gsoIp6 p.ip4.tos (p.ip4.ttl - 1) entry.proto r.1 r.2 p.data.length
  let seed := gsoCalcPseudo6 r.1 r.2 entry.proto (BitVec.ofNat 32 p.data.length)
  let software build := segmentLoop v.gsoSize.toNat build (payload.length + 1) 0 0 payload
  match entry with
  | .tcp => do
    emit (some (gsoNormalizeTcpOutput (gsoTcpVhdr v vnetGsoTcpv6 (BitVec.ofNat 16 ihl) 40) payload.length))
      (ip6.toBytes ++ put p.data 16 (be16 seed))
    return true
  | .tcpSoftware => software (buildTcp4to6 g.endian p (TcpHdr.ofBytes (p.data.take l4Len)) l4Len r.1 r.2)
  | .udp =>
    if !g.tunHasUso ∨ ihl ≠ 20 then software (buildUdp4to6 g.endian p (UdpHdr.ofBytes p.data) r.1 r.2)
    else do
      emit (some (gsoUdpVhdr v 40)) (ip6.toBytes ++ gsoUdpSeed p.data seed)
      return true
  | .udpSoftware => software (buildUdp4to6 g.endian p (UdpHdr.ofBytes p.data) r.1 r.2)

/-- What is done with mapped addresses; an error of the mapper is passed on. -/
def sendMapped (f : In6 × In6 → PktProg Bool) : Except Bool (In6 × In6) → PktProg Bool
  | .error handled => .done handled
  | .ok r => f r

/-- The checks of an entry point for the aggregate `p`, in front of the mapping. -/
def checked4 (g : Gcfg) (p : Pkt4) (tooBig : Prop) [Decidable tooBig] (f : In6 × In6 → PktProg Bool) : PktProg Bool :=
  if p.ip4.flagsOffset &&& ip4FDf ≠ 0 ∧ tooBig then gsoError4 g 3 4 (fragMtu g) p
  else if p.ip4.ttl ≤ 1 then gsoError4 g 11 0 0 p
  else gsoMap4to6WithIcmp g p >>= sendMapped f

/-- **`gso_translate_tcp_4to6`**: options are not counted, and the size is tested first. -/
theorem tcp_program (h : Aggregate4 .tcp g d v ihl l4Len) (hmtu : mtuMin ≤ g.mtu) :
    gsoTranslateTcp4to6 g d (some v) = checked4 g (gsoPkt4 d v ihl 6)
      (GsoEntry.TooBig .tcp g (Ip4.ofBytes d) ihl (largestL4 d v ihl l4Len)) (GsoEntry.send .tcp g d v ihl l4Len) := by
  have hip4 : gsoValidateIpv4Header g.endian d 6 = some ihl := h.hip4
  have hvalid := (gsoValidateIpv4Header_valid hip4).1
  have htcp : TcpAggregate d v false ihl l4Len := h.hl4
  have hvnet := htcp.hvnet (.inl rfl)
  have hneeds : v.needsCsum := (of_decide_eq_true hvnet).1
  have hmin := hvalid.hmin
  have hl4 := htcp.hmin
  have hfit := htcp.hfit
  have hhdr : ¬(l4Len < 20 ∨ d.length < ihl + l4Len ∨ !gsoValidateTransportVnet d.length v ihl l4Len 16) := by
    rw [hvnet]
    simp only [Bool.not_true, Bool.false_eq_true, or_false]
    omega
  unfold checked4 gsoTranslateTcp4to6
  dsimp only
  rw [if_neg (not_not.2 htcp.htype), h.hheader, if_neg (by decide), if_neg (show ¬d.length < 20 + 20 by omega), hip4]
  dsimp only
  rw [show tcpHdrLen (gsoPkt4 d v ihl 6).data = l4Len from htcp.hl4.symm, hneeds, if_neg (by decide), if_neg hhdr]
  have htoo := gsoTooBig4_iff v 20 l4Len hvalid hmtu
  rw [← gsoPkt4_ip4 (v := v) hvalid] at htoo
  refine if_congr htoo rfl (if_congr Iff.rfl rfl (congrArg _ (funext fun r => ?_)))
  cases r <;> rfl

/-- **`gso_software_segment_and_send_4to6`**: options are counted, and the size is tested first. -/
theorem tcpSoftware_program (h : Aggregate4 .tcpSoftware g d v ihl l4Len) (hmtu : mtuMin ≤ g.mtu) :
    gsoSoftwareSegmentAndSend4to6 g d (some v) = checked4 g (gsoPkt4 d v ihl 6)
      (GsoEntry.TooBig .tcpSoftware g (Ip4.ofBytes d) ihl (largestL4 d v ihl l4Len))
      (GsoEntry.send .tcpSoftware g d v ihl l4Len) := by
  have hip4 : gsoValidateIpv4Header g.endian d 6 = some ihl := h.hip4
  have hvalid := (gsoValidateIpv4Header_valid hip4).1
  have htcp : TcpAggregate d v true ihl l4Len := h.hl4
  have hmin := hvalid.hmin
  have hl4 := htcp.hmin
  have hfit := htcp.hfit
  have hheader : ¬gsoValidateHeader d.length v ≤ 0 := by
    rw [h.hheader]
    decide
  have htake : ¬(v.gso ≠ vnetGsoTcpv4 ∨ gsoValidateHeader d.length v ≤ 0) :=
    not_or.2 ⟨not_not.2 htcp.htype, hheader⟩
  have hvnet : ¬(v.hdrLen.toNat < ihl + l4Len ∨ v.needsCsum ∧ !gsoValidateTransportVnet d.length v ihl l4Len 16) := by
    rintro (hlt | ⟨hneeds, hnot⟩)
    · have := htcp.hhdrLen
      omega
    · rw [htcp.hvnet (.inr hneeds)] at hnot
      cases hnot
  unfold checked4 gsoSoftwareSegmentAndSend4to6
  dsimp only
  rw [if_neg htake, if_neg (show ¬d.length < 20 + 20 by omega), hip4]
  dsimp only
  rw [show tcpHdrLen (gsoPkt4 d v ihl 6).data = l4Len from htcp.hl4.symm,
    if_neg (show ¬(d.length < ihl + 20 ∨ l4Len < 20 ∨ d.length < ihl + l4Len) by omega), if_neg hvnet,
    effectiveGsoSize_eq hheader]
  have htoo := gsoTooBig4_iff v ihl l4Len hvalid hmtu
  rw [← gsoPkt4_ip4 (v := v) hvalid] at htoo
  refine if_congr htoo rfl (if_congr Iff.rfl rfl (congrArg _ (funext fun r => ?_)))
  cases r <;> rfl

/-- **`gso_software_segment_and_send_udp_4to6`**: options are counted, and the size is tested after the TTL. -/
theorem udpSoftware_program (h : Aggregate4 .udpSoftware g d v ihl l4Len) (hmtu : mtuMin ≤ g.mtu) :
    gsoSoftwareSegmentAndSendUdp4to6 g d (some v) = checked4 g (gsoPkt4 d v ihl 17)
      (GsoEntry.TooBig .udpSoftware g (Ip4.ofBytes d) ihl (largestL4 d v ihl l4Len))
      (GsoEntry.send .udpSoftware g d v ihl l4Len) := by
  have hip4 : gsoValidateIpv4Header g.endian d 17 = some ihl := h.hip4
  have hvalid := (gsoValidateIpv4Header_valid hip4).1
  have hudp : UdpAggregate d v ihl l4Len := h.hl4
  have hmin := hvalid.hmin
  obtain rfl := hudp.hl4
  have hfit := hudp.hfit
  have hheader : ¬gsoValidateHeader d.length v ≤ 0 := by
    rw [h.hheader]
    decide
  have htake : ¬(v.gso ≠ vnetGsoUdpL4 ∨ gsoValidateHeader d.length v ≤ 0) :=
    not_or.2 ⟨not_not.2 hudp.htype, hheader⟩
  have hvnet : ¬(d.length < ihl + 8 ∨ !gsoValidateTransportVnet d.length v ihl 8 6) := by
    rw [hudp.hvnet]
    simp only [Bool.not_true, Bool.false_eq_true, or_false]
    omega
  have hsized : gsoUdpSized (gsoPkt4 d v ihl 17).data v.gsoSize.toNat := hudp.hsized
  unfold checked4 gsoSoftwareSegmentAndSendUdp4to6
  dsimp only
  rw [if_neg htake, hip4]
  dsimp only
  rw [if_neg hvnet, effectiveGsoSize_eq hheader, hsized, if_neg (show ¬(!true) = true by decide)]
  have htoo := gsoTooBig4_iff v ihl 8 hvalid hmtu
  rw [← gsoPkt4_ip4 (v := v) hvalid] at htoo
  rw [ite_front]
  refine if_congr ?_ rfl (if_congr Iff.rfl rfl (congrArg _ (funext fun r => ?_)))
  · refine (and_congr_right' htoo).trans (and_left_comm.trans ?_)
    rw [gsoPkt4_ip4 hvalid]
    rfl
  · cases r <;> rfl

theorem send_udp_of_route (h : (!g.tunHasUso) = true ∨ ihl ≠ 20) :
    GsoEntry.send .udp g d v ihl l4Len = GsoEntry.send .udpSoftware g d v ihl l4Len := funext fun _ => if_pos h

/-- **`gso_translate_udp_4to6`**: a datagram with options takes the software path, so they are counted here too. -/
theorem udp_program (h : Aggregate4 .udp g d v ihl l4Len) (hmtu : mtuMin ≤ g.mtu) :
    gsoTranslateUdp4to6 g d (some v) = checked4 g (gsoPkt4 d v ihl 17)
      (GsoEntry.TooBig .udp g (Ip4.ofBytes d) ihl (largestL4 d v ihl l4Len)) (GsoEntry.send .udp g d v ihl l4Len) := by
  have hip4 : gsoValidateIpv4Header g.endian d 17 = some ihl := h.hip4
  have hvalid := (gsoValidateIpv4Header_valid hip4).1
  have hudp : UdpAggregate d v ihl l4Len := h.hl4
  have hmin := hvalid.hmin
  have hsoftware := udpSoftware_program ⟨h.hheader, hip4, hudp⟩ hmtu
  obtain rfl := hudp.hl4
  have hfit := hudp.hfit
  have hvnet : ¬(d.length < ihl + 8 ∨ !gsoValidateTransportVnet d.length v ihl 8 6) := by
    rw [hudp.hvnet]
    simp only [Bool.not_true, Bool.false_eq_true, or_false]
    omega
  have hsized : gsoUdpSized (gsoPkt4 d v ihl 17).data v.gsoSize.toNat := hudp.hsized
  have hshort : ¬65535 < (gsoPkt4 d v ihl 17).data.length := by
    have hlen := (of_decide_eq_true hsized).1
    have := (UdpHdr.ofBytes (gsoPkt4 d v ihl 17).data).length.isLt
    omega
  unfold checked4 gsoTranslateUdp4to6 at *
  dsimp only at *
  rw [if_neg (not_not.2 hudp.htype), h.hheader, if_neg (by decide), if_neg (by omega), hip4]
  dsimp only
  rw [if_neg hvnet, if_neg hshort, hsized, if_neg (show ¬(!true) = true by decide)]
  have htoo := gsoTooBig4_iff v 20 8 hvalid hmtu
  rw [← gsoPkt4_ip4 (v := v) hvalid] at htoo hsoftware ⊢
  by_cases hroute : (!g.tunHasUso) = true ∨ ihl ≠ 20
  · rw [if_pos hroute, hsoftware]
    by_cases httl : (gsoPkt4 d v ihl 17).ip4.ttl ≤ 1
    · rw [if_pos httl, if_neg fun h => h.2.1 httl, if_pos httl]
    rw [if_neg httl]
    by_cases hbig : gsoTooBig4 g (gsoPkt4 d v ihl 17) 20 8 v.gsoSize.toNat
    · obtain ⟨hdf, hlt⟩ := htoo.1 hbig
      rw [if_pos hbig, if_pos ⟨hdf, httl, by omega⟩]
      rfl
    · rw [if_neg hbig, send_udp_of_route hroute]
      rfl
  · obtain ⟨-, hihl⟩ := not_or.1 hroute
    obtain rfl := not_not.1 hihl
    rw [if_neg hroute, ite_front]
    refine if_congr ((and_congr_right' htoo).trans and_left_comm) rfl
      (if_congr Iff.rfl rfl (congrArg _ (funext fun r => ?_)))
    cases r with
    | error handled => rfl
    | ok r => exact (if_neg hroute).symm

/-- **What an entry point does.** -/
theorem entry_program {entry : GsoEntry} (h : Aggregate4 entry g d v ihl l4Len) (hmtu : mtuMin ≤ g.mtu) :
    entry.run g d (some v) = checked4 g (gsoPkt4 d v ihl entry.proto)
      (entry.TooBig g (Ip4.ofBytes d) ihl (largestL4 d v ihl l4Len)) (entry.send g d v ihl l4Len) := by
  cases entry with
  | tcp => exact tcp_program h hmtu
  | tcpSoftware => exact tcpSoftware_program h hmtu
  | udp => exact udp_program h hmtu
  | udpSoftware => exact udpSoftware_program h hmtu

/-- An entry point sends IPv6 packets only. -/
theorem send_version (entry : GsoEntry) (r : In6 × In6) :
    OnlyWrites (fun packet => version packet = 6) (entry.send g d v ihl l4Len r) := by
  have hudp : OnlyWrites (fun packet => version packet = 6) (GsoEntry.send .udpSoftware g d v ihl l4Len r) :=
    segmentLoop_writes (fun _ _ _ _ _ h => buildUdp4to6_version h) _ _ _ _
  cases entry with
  | tcp => exact emit6_onlyWrites rfl _
  | tcpSoftware => exact segmentLoop_writes (fun _ _ _ _ _ h => buildTcp4to6_version h) _ _ _ _
  | udp => exact .ite (fun _ => hudp) fun _ => emit6_onlyWrites rfl _
  | udpSoftware => exact hudp

/-- An entry point sends something, if the first segment is no longer than a packet can be. -/
theorem send_ne_nil {entry : GsoEntry} (h : Aggregate4 entry g d v ihl l4Len) (hsize : largestL4 d v ihl l4Len ≤ 65535)
    (r : In6 × In6) : written ans (entry.send g d v ihl l4Len r) ≠ [] := by
  rw [← length_firstSegment] at hsize
  have hudp (hl4 : l4Len = 8) : written ans (GsoEntry.send .udpSoftware g d v ihl l4Len r) ≠ [] := by
    subst hl4
    exact segmentLoop_ne_nil (buildUdp4to6_ne_none hsize)
  cases entry with
  | tcp => exact emit_ne_nil
  | tcpSoftware => exact segmentLoop_ne_nil (buildTcp4to6_ne_none hsize)
  | udp =>
    have hudp := hudp (show UdpAggregate d v ihl l4Len from h.hl4).hl4
    by_cases hroute : (!g.tunHasUso) = true ∨ ihl ≠ 20
    · rw [send_udp_of_route hroute]
      exact hudp
    · rw [show GsoEntry.send .udp g d v ihl l4Len r = _ from if_neg hroute]
      exact emit_ne_nil
  | udpSoftware => exact hudp (show UdpAggregate d v ihl l4Len from h.hl4).hl4

/-- **What an entry point checks**, in front of the mapping. -/
theorem entry_checks {entry : GsoEntry} (ans : (op : PktOp) → op.Ans) (h : Aggregate4 entry g d v ihl l4Len)
    (hmtu : mtuMin ≤ g.mtu) :
    Checks4 g ans (gsoPkt4 d v ihl entry.proto) (entry.TooBig g (Ip4.ofBytes d) ihl (largestL4 d v ihl l4Len))
      (largestL4 d v ihl l4Len) (entry.run g d (some v)) :=
  ⟨sendMapped (entry.send g d v ihl l4Len), ⟨fun _ => rfl, send_version entry, send_ne_nil h⟩, entry_program h hmtu⟩

end Entries

theorem ttl_le_one {ttl : Byte} : ttl ≤ 1 ↔ ttl = 0 ∨ ttl = 1 := by
  constructor
  · intro h
    have hle : ttl.toNat ≤ 1 := h
    have hcases : ttl.toNat = 0 ∨ ttl.toNat = 1 := by omega
    exact hcases.imp BitVec.eq_of_toNat_eq BitVec.eq_of_toNat_eq
  · rintro (rfl | rfl) <;> decide

private theorem gsoError4_fragNeeded {p : Pkt4} (hp : p.dataProto ≠ 1) {mtu : BitVec 32} :
    SendsFragNeeded ans (gsoError4 g 3 4 (fragMtu g) p) mtu ↔ mtu = fragMtu g := by
  obtain ⟨packet, hpacket, hfn⟩ := hostSendIcmp4Error_fragNeeded g (fragMtu g) hp
  rw [← sendsFragNeeded_emit ans hfn, ← hpacket]
  unfold SendsFragNeeded gsoError4
  rw [written_bind]
  simp

/-- **When an entry point sends Fragmentation Needed.** -/
theorem entry_fragNeeded {entry : GsoEntry} {ihl l4Len : Nat} {mtu : BitVec 32} (hmtu : mtuMin ≤ g.mtu)
    (h : Aggregate4 entry g d v ihl l4Len) (hdf : DontFragment (Ip4.ofBytes d)) :
    SendsFragNeeded ans (entry.run g d (some v)) mtu ↔
    mtu = fragMtu g ∧ entry.TooBig g (Ip4.ofBytes d) ihl (largestL4 d v ihl l4Len) := by
  obtain ⟨f, hf, hrun⟩ := entry_checks ans h hmtu
  rw [hrun, gsoPkt4_ip4 (gsoValidateIpv4Header_valid h.hip4).1]
  by_cases hbig : entry.TooBig g (Ip4.ofBytes d) ihl (largestL4 d v ihl l4Len)
  · rw [if_pos ⟨hdf.2, hbig⟩, and_iff_left hbig]
    exact gsoError4_fragNeeded entry.isTransport_proto.ne_icmp.1
  rw [if_neg fun h => hbig h.2]
  refine iff_of_false (not_sendsFragNeeded ?_) fun h => hbig h.2
  refine OnlyWrites.ite (fun _ => othersOnly (gsoError4_writes (otherErrors _ _ (by decide)))) fun _ =>
    (othersOnly (gsoMap4to6WithIcmp_writes otherErrors)).bind fun r => ?_
  cases r with
  | error handled =>
    rw [hf.herror]
    exact .done _
  | ok r => exact (hf.hversion r).mono fun _ => not_fragNeeded_of_version


/-- `s` is the largest segment of the aggregate `d` as a packet of its own: it has the header of the aggregate up to the
length, the identification and the checksum, its ports, and the first segment of its payload. -/
structure LargestSegment (e : Endian) (d : List Byte) (v : VnetHdr) (ihl l4Len : Nat) (s : List Byte) : Prop where
  hheader : ∃ length ident cksum,
    Ip4.ofBytes s = { Ip4.ofBytes d with length := length, ident := ident, cksum := cksum }
  hoptions : (s.take ihl).drop 20 = (d.take ihl).drop 20
  hports : (s.drop ihl).take 4 = (d.drop ihl).take 4
  hpayload : s.drop (ihl + l4Len) = (d.drop (ihl + l4Len)).take v.gsoSize.toNat
  hfit : ihl + l4Len ≤ s.length
  hlength : (Ip4.ofBytes s).length.toNat = s.length
  hcksum : ipChecksum e (s.take ihl) = 0

theorem LargestSegment.length {e : Endian} {s : List Byte} {ihl l4Len : Nat} (h : LargestSegment e d v ihl l4Len s) :
    s.length - ihl = largestL4 d v ihl l4Len := by
  have hpayload := congrArg List.length h.hpayload
  have hfit := h.hfit
  rw [List.length_drop, List.length_take, List.length_drop] at hpayload
  unfold largestL4 maxSeg
  split <;> omega

/-- The segment has a valid header, as the aggregate has. -/
theorem LargestSegment.valid {e : Endian} {s : List Byte} {ihl l4Len : Nat} {proto : Byte}
    (h : LargestSegment e d v ihl l4Len s) (hvalid : ValidHeader4 e d proto ihl) : ValidHeader4 e s proto ihl := by
  obtain ⟨length, ident, cksum, hheader⟩ := h.hheader
  have hfit := h.hfit
  constructor
  all_goals (try rw [hheader])
  · exact hvalid.hversion
  · exact hvalid.hihl
  · exact hvalid.hmin
  · omega
  · exact hvalid.hproto
  · exact h.hcksum
  · exact hvalid.hsrc
  · exact hvalid.hdest

/-- The scalar path has a TTL of 2 at least. -/
theorem Forwardable.ttl {h : Ip4} (hf : Forwardable g ans h) : ¬h.ttl ≤ 1 := by
  rw [ttl_le_one, not_or]
  exact hf.httl

/-- **Fragmentation Needed for an aggregate with DF set and for its largest segment**: the entry point and the data path
send it alike, with the same MTU, exactly if a segment that the entry point finds too big does exceed the MTU after
translation, has hops left, is not for the translator and has both its addresses mapped. -/
theorem fragNeeded_agrees (entry : GsoEntry) (g : Gcfg) (offload : Bool) (d : List Byte) (v : VnetHdr) (ihl l4Len : Nat)
    (s : List Byte) (vhdr : Option VnetHdr) (ans : (op : PktOp) → op.Ans) (hmtu : mtuMin ≤ g.mtu)
    (hagg : Aggregate4 entry g d v ihl l4Len) (hdf : (Ip4.ofBytes d).flagsOffset &&& ip4FDf ≠ 0)
    (hs : LargestSegment g.endian d v ihl l4Len s) (hplain : isGso vhdr = false) :
    (∀ mtu, SendsFragNeeded ans (entry.run g d (some v)) mtu ↔ SendsFragNeeded ans (handleIp4 g offload s vhdr) mtu) ↔
    (entry.TooBig g (Ip4.ofBytes d) ihl (largestL4 d v ihl l4Len) →
      Forwardable g ans (Ip4.ofBytes d) ∧ g.mtu < 40 + largestL4 d v ihl l4Len) := by
  obtain ⟨hvalid, hwhole⟩ := gsoValidateIpv4Header_valid hagg.hip4
  obtain ⟨length, ident, cksum, hheader⟩ := hs.hheader
  have hsdf : DontFragment (Ip4.ofBytes s) := by
    rw [hheader]
    exact ⟨hwhole, hdf⟩
  have hforward : Forwardable g ans (Ip4.ofBytes s) ↔ Forwardable g ans (Ip4.ofBytes d) := by
    rw [hheader]
    exact ⟨fun h => ⟨h.httl, h.hdest, h.hmapped⟩, fun h => ⟨h.httl, h.hdest, h.hmapped⟩⟩
  simp only [entry_fragNeeded hmtu hagg ⟨hwhole, hdf⟩,
    plain_fragNeeded hplain (hs.valid hvalid) entry.isTransport_proto hsdf hs.hlength, hs.length, hforward]
  have hmin := hvalid.hmin
  constructor
  · intro hsame htoo
    exact ((hsame (fragMtu g)).1 ⟨rfl, htoo⟩).2
  · intro hcond mtu
    refine and_congr_right fun _ => ⟨hcond, fun ⟨hf, hlt⟩ => ?_⟩
    cases entry with
    | tcp => exact hlt
    | tcpSoftware => exact (show g.mtu < ihl + 20 + _ by omega)
    | udp => exact ⟨hf.ttl, by omega⟩
    | udpSoftware => exact ⟨hf.ttl, by omega⟩

/-- A UDP datagram of zeros with DF set, four bytes of IPv4 options and `data` bytes of payload. -/
def optionsDatagram (data : Nat) (cksum : BitVec 16) : List Byte :=
  (Ip4.mk 0x46 0 (BitVec.ofNat 16 (32 + data)) 0 0x4000 64 17 cksum 0xc0000205 0xc6336407).toBytes ++
    ([1, 1, 1, 1] ++ ((UdpHdr.mk 0x3039 0x35 (BitVec.ofNat 16 (8 + data)) 0x1234).toBytes ++ List.replicate data 0))

/-- 1552 bytes in segments of 1452. -/
def sampleAggregate : List Byte := optionsDatagram 1552 0x457b

/-- The first segment as a packet of its own. -/
def sampleSegment : List Byte := optionsDatagram 1452 0x45df

/-- The virtio header of the aggregate. -/
def sampleUdpGso : VnetHdr := ⟨1, vnetGsoUdpL4, 32, 1452, 24, 6, 0⟩

theorem sampleAggregate_aggregate : Aggregate4 .udp sampleGcfg sampleAggregate sampleUdpGso 24 8 :=
  ⟨by decide +kernel, by decide +kernel, by decide +kernel, by decide +kernel, by decide +kernel, by decide +kernel,
    by decide +kernel⟩

theorem sampleSegment_largest : LargestSegment .little sampleAggregate sampleUdpGso 24 8 sampleSegment :=
  ⟨⟨1484, 0, 0x45df, by decide +kernel⟩, by decide +kernel, by decide +kernel, by decide +kernel, by decide +kernel,
    by decide +kernel, by decide +kernel⟩

theorem fragNeeded_agrees_sample :
    (∀ mtu, SendsFragNeeded sampleAns (GsoEntry.udp.run sampleGcfg sampleAggregate (some sampleUdpGso)) mtu ↔
      SendsFragNeeded sampleAns (handleIp4 sampleGcfg true sampleSegment none) mtu) ↔
    (GsoEntry.udp.TooBig sampleGcfg (Ip4.ofBytes sampleAggregate) 24 (largestL4 sampleAggregate sampleUdpGso 24 8) →
      Forwardable sampleGcfg sampleAns (Ip4.ofBytes sampleAggregate) ∧
      sampleGcfg.mtu < 40 + largestL4 sampleAggregate sampleUdpGso 24 8) :=
  fragNeeded_agrees .udp sampleGcfg true sampleAggregate sampleUdpGso 24 8 sampleSegment none sampleAns (by decide)
    sampleAggregate_aggregate (by decide +kernel) sampleSegment_largest rfl

/-- The options of the aggregate are counted, and those of the segment are not: its translation fits. -/
theorem not_sendsAlike_options : Aggregate4 .udp sampleGcfg sampleAggregate sampleUdpGso 24 8 ∧
    LargestSegment .little sampleAggregate sampleUdpGso 24 8 sampleSegment ∧
    SendsFragNeeded sampleAns (GsoEntry.udp.run sampleGcfg sampleAggregate (some sampleUdpGso)) (fragMtu sampleGcfg) ∧
    ¬SendsFragNeeded sampleAns (handleIp4 sampleGcfg true sampleSegment none) (fragMtu sampleGcfg) :=
  ⟨sampleAggregate_aggregate, sampleSegment_largest, by decide +kernel, by decide +kernel⟩

end Tayga
