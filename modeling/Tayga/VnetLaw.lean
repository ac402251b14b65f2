import Tayga.ChecksumProofs
import Tayga.Outputs
import Tayga.ProtocolLaw

/-!
# Virtio headers

A virtio header that leaves a checksum or the segmentation to the device is placed right in the packet it is written
with (`VnetOk`), but for its `hdr_len`: on the path of the plain packets that is passed on unchecked, and that of a TCP
aggregate to IPv6 is not kept from wrapping (`vnet_wellFormed`).
-/

namespace Tayga

open Program

variable {g : Gcfg} {d packet : List Byte} {v w : VnetHdr} {ans : (op : PktOp) → op.Ans}

/-! ### The law -/

/-- The length of the network header of a packet that is written. -/
def netLen (packet : List Byte) : Nat := if version packet = 4 then 20 else 40

/-- The protocol behind the network header of a packet that is written. -/
def transportProto (packet : List Byte) : Byte := if version packet = 4 then getU8 packet 9 else getU8 packet 6

/-- The length of the transport header of a packet that is written. -/
def transportLen (packet : List Byte) : Nat :=
  if transportProto packet = 17 then 8 else tcpHdrLen (packet.drop (netLen packet))

/-- Where the `hdr_len` of `w` comes from: it is that of `v`, or moved with the end of the network header, which was at
`old`, or the length of the headers or of the packet.  Nothing of this wraps. -/
inductive HdrLenFrom (v w : VnetHdr) (old : Nat) (packet : List Byte) : Prop where
  | kept (h : w.hdrLen = v.hdrLen)
  | moved (h : w.hdrLen.toNat + old = v.hdrLen.toNat + netLen packet)
  | headers (h : w.hdrLen.toNat = netLen packet + transportLen packet)
  | whole (h : w.hdrLen.toNat = packet.length)

/-- The header `w`, made of `v`, is right for the packet it is written with. -/
structure VnetOk (v w : VnetHdr) (old : Nat) (packet : List Byte) : Prop where
  hstart : w.csumStart.toNat = netLen packet
  hend : w.csumStart.toNat + w.csumOffset.toNat + 2 ≤ packet.length
  hlen : w.hdrLen.toNat ≤ packet.length
  hgso : w.gso ≠ vnetGsoNone → netLen packet + transportLen packet ≤ w.hdrLen.toNat
  hfrom : HdrLenFrom v w old packet

/-- The length of the header of the IPv4 packet. -/
def ip4Ihl (d : List Byte) : Nat := ((Ip4.ofBytes d).verIhl &&& 0x0f).toNat * 4

/-- The `hdr_len` of an IPv4 packet: that of a plain one fits the packet it becomes, that of a TCP aggregate does not
wrap. -/
structure HdrLenFits4 (d : List Byte) (v : VnetHdr) : Prop where
  hplain : v.gso = vnetGsoNone → v.hdrLen.toNat ≤ 40 + (ip4Data d).length
  htcp : v.gso = vnetGsoTcpv4 → v.hdrLen.toNat + 40 ≤ 65535 + ip4Ihl d

/-- The `hdr_len` of an IPv6 packet: that of a plain one fits the packet it becomes. -/
def HdrLenFits6 (d : List Byte) (v : VnetHdr) : Prop :=
  v.gso = vnetGsoNone → ∀ p, parseIp6 d (some v) false = .ok p → v.hdrLen.toNat ≤ 20 + p.data.length

/-! ### Packets behind their headers -/

section Behind

variable {rest : List Byte}

theorem netLen_ip4 {h : Ip4} (hv : h.verIhl = 0x45) : netLen (h.toBytes ++ rest) = 20 := by
  rw [netLen, if_pos (Ip4.version_toBytes hv _)]

theorem netLen_ip6 {h : Ip6} {tc : Byte} (hv : h.verTcFl = verTc tc) : netLen (h.toBytes ++ rest) = 40 := by
  rw [netLen, if_neg]
  rw [Ip6.version_toBytes hv]
  decide

private theorem transportLen_ip4 {h : Ip4} (hv : h.verIhl = 0x45) :
    transportLen (h.toBytes ++ rest) = if h.proto = 17 then 8 else tcpHdrLen rest := by
  rw [transportLen, netLen_ip4 hv, transportProto, if_pos (Ip4.version_toBytes hv _)]
  rfl

private theorem transportLen_ip6 {h : Ip6} {tc : Byte} (hv : h.verTcFl = verTc tc) :
    transportLen (h.toBytes ++ rest) = if h.nextHeader = 17 then 8 else tcpHdrLen rest := by
  have hne : version (h.toBytes ++ rest) ≠ 4 := by
    rw [Ip6.version_toBytes hv]
    decide
  rw [transportLen, netLen_ip6 hv, transportProto, if_neg hne]
  rfl

end Behind

private theorem tcpHdrLen_put {l : List Byte} {x : BitVec 16} (hl : 16 ≤ l.length) :
    tcpHdrLen (put l 16 (be16 x)) = tcpHdrLen l := by
  unfold tcpHdrLen
  rw [getU8_put (by decide) hl]

theorem tcpHdrLen_le (l : List Byte) : tcpHdrLen l ≤ 60 := by
  have h : ∀ b : Byte, (b >>> 4).toNat * 4 ≤ 60 := by decide
  exact h _

/-! ### Aggregates -/

theorem gsoNormalizeTcpOutput_fields {n : Nat} (h : w = gsoNormalizeTcpOutput v n) :
    w.hdrLen = v.hdrLen ∧ w.csumStart = v.csumStart ∧ w.csumOffset = v.csumOffset := by
  unfold gsoNormalizeTcpOutput at h
  split at h <;> subst h <;> exact ⟨rfl, rfl, rfl⟩

theorem moved_toNat {x : BitVec 16} {old new : Nat} (hold : old ≤ x.toNat) (hnew : new ≤ 65535) :
    (x + BitVec.ofNat 16 new - BitVec.ofNat 16 old).toNat = (x.toNat + new - old) % 65536 := by
  have hx := x.isLt
  rw [BitVec.toNat_sub, BitVec.toNat_add, BitVec.toNat_ofNat, BitVec.toNat_ofNat]
  omega

/-- What is known of a TCP aggregate with a transport header of `l4Len` bytes, which had its network header end at
`old`, and of the packet it is written in. -/
structure MovedTcp (v : VnetHdr) (old l4Len : Nat) (packet : List Byte) : Prop where
  hstart : v.csumStart.toNat = old
  hoffset : v.csumOffset.toNat = 16
  hheaders : old + l4Len ≤ v.hdrLen.toNat
  htransport : transportLen packet = l4Len
  hmin : 20 ≤ l4Len
  hfit : netLen packet + l4Len ≤ packet.length

private theorem netLen_le (packet : List Byte) : netLen packet ≤ 40 := by
  unfold netLen
  split <;> omega

/-- The header of a TCP aggregate is moved with its network header, if that does not wrap. -/
theorem MovedTcp.ok {t : Byte} {old l4Len n : Nat} (h : MovedTcp v old l4Len packet)
    (hlen : v.hdrLen.toNat + netLen packet ≤ packet.length + old) :
    VnetOk v (gsoNormalizeTcpOutput (gsoTcpVhdr v t (BitVec.ofNat 16 old) (BitVec.ofNat 16 (netLen packet))) n) old
      packet ↔ v.hdrLen.toNat + netLen packet ≤ 65535 + old := by
  generalize hw : gsoNormalizeTcpOutput (gsoTcpVhdr v t _ _) n = w
  obtain ⟨hhdr, hstart, hoffset⟩ := gsoNormalizeTcpOutput_fields hw.symm
  have hnet := netLen_le packet
  have hx := v.hdrLen.isLt
  have hmin := h.hmin
  have hfit := h.hfit
  have hheaders := h.hheaders
  have hhdr : w.hdrLen.toNat = (v.hdrLen.toNat + netLen packet - old) % 65536 := by
    rw [hhdr]
    exact moved_toNat (by omega) (by omega)
  have hstart : w.csumStart.toNat = netLen packet := by
    rw [hstart]
    refine (moved_toNat (by rw [h.hstart]) (by omega)).trans ?_
    rw [h.hstart]
    omega
  have hoffset : w.csumOffset.toNat = 16 := by
    rw [hoffset]
    exact h.hoffset
  constructor
  · intro hok
    cases hok.hfrom with
    | kept h =>
      rw [h] at hhdr
      omega
    | moved h => omega
    | headers hnew =>
      rw [h.htransport] at hnew
      omega
    | whole h => omega
  · intro hwrap
    refine ⟨hstart, by omega, by omega, fun _ => ?_, .moved (by omega)⟩
    rw [h.htransport]
    omega

/-- The header of a UDP aggregate is counted anew. -/
private theorem gsoUdpVhdr_ok {old : Nat} (htransport : transportLen packet = 8)
    (hfit : netLen packet + 8 ≤ packet.length) :
    VnetOk v (gsoUdpVhdr v (BitVec.ofNat 16 (netLen packet))) old packet := by
  have hnet := netLen_le packet
  have hstart : (gsoUdpVhdr v (BitVec.ofNat 16 (netLen packet))).csumStart.toNat = netLen packet := by
    refine (BitVec.toNat_ofNat _ _).trans ?_
    omega
  have hhdr : (gsoUdpVhdr v (BitVec.ofNat 16 (netLen packet))).hdrLen.toNat = netLen packet + 8 := by
    show (BitVec.ofNat 16 (netLen packet) + 8).toNat = _
    rw [BitVec.toNat_add, BitVec.toNat_ofNat, show (8 : BitVec 16).toNat = 8 from rfl]
    omega
  have hoffset : (gsoUdpVhdr v (BitVec.ofNat 16 (netLen packet))).csumOffset.toNat = 6 := rfl
  refine ⟨hstart, by omega, by omega, fun _ => ?_, .headers ?_⟩ <;> rw [htransport, hhdr]

theorem gsoValidateTransportVnet_iff {dataLen l3Len transportLen csumOffset : Nat} :
    gsoValidateTransportVnet dataLen v l3Len transportLen csumOffset ↔
    v.needsCsum ∧ v.flags &&& vnetDataValid = 0 ∧ v.csumStart.toNat = l3Len ∧ v.csumOffset.toNat = csumOffset ∧
      l3Len + transportLen ≤ v.hdrLen.toNat ∧ v.hdrLen.toNat ≤ dataLen := by
  unfold gsoValidateTransportVnet
  rw [decide_eq_true_eq]

theorem length_put_be16 {l : List Byte} {x : BitVec 16} {i : Nat} (hl : i + 2 ≤ l.length) :
    (put l i (be16 x)).length = l.length :=
  length_put (by rw [length_be16]; exact hl)

theorem length_gsoUdpSeed {n : Nat} {seed : BitVec 16} (hfit : n + 8 ≤ d.length) :
    (gsoUdpSeed (d.drop n) seed).length = (d.drop n).length :=
  length_put_be16 (by rw [List.length_drop]; omega)

/-- The header of an aggregate to IPv6. -/
private theorem vnetOk_of_gsoOutput4 (h : GsoOutput4 g d v (some w) packet) :
    VnetOk v w (ip4Ihl d) packet ↔ HdrLenFits4 d v := by
  cases h with
  | @tcp h tos ihl seed hv hproto htcp =>
    obtain ⟨-, -, hstart, hoffset, hheaders, hlen⟩ := gsoValidateTransportVnet_iff.1 htcp.hvnet
    have hihl : ihl = ip4Ihl d := (gsoValidateIpv4Header_valid htcp.hvalid).1.hihl
    have hmin := htcp.hmin
    have hfit := htcp.hfit
    have hdata : (d.drop ihl).length = d.length - ihl := List.length_drop
    have hput : (put (d.drop ihl) 16 (be16 seed)).length = d.length - ihl := by
      rw [length_put_be16 (by omega), hdata]
    have hnet : netLen (h.toBytes ++ put (d.drop ihl) 16 (be16 seed)) = 40 := netLen_ip6 hv
    have hpacket : (h.toBytes ++ put (d.drop ihl) 16 (be16 seed)).length = 40 + (d.length - ihl) := by
      rw [List.length_append, hput, length_ip6]
    have hmoved : MovedTcp v ihl (tcpHdrLen (d.drop ihl)) (h.toBytes ++ put (d.drop ihl) 16 (be16 seed)) := by
      refine ⟨hstart, hoffset, hheaders, ?_, hmin, by omega⟩
      rw [transportLen_ip6 hv, hproto, if_neg (by decide), tcpHdrLen_put (by omega)]
    have hok := hmoved.ok (t := vnetGsoTcpv6) (n := ((d.drop ihl).drop (tcpHdrLen (d.drop ihl))).length) (by omega)
    rw [hnet] at hok
    rw [← hihl]
    refine hok.trans ⟨fun hwrap => ⟨fun hnone => ?_, fun _ => by omega⟩, fun hfits => ?_⟩
    · rw [htcp.hgso] at hnone
      exact absurd hnone (by decide)
    · have := hfits.htcp htcp.hgso
      omega
  | @udp h tos seed hv hproto hgso hfit =>
    have hnet : netLen (h.toBytes ++ gsoUdpSeed (d.drop 20) seed) = 40 := netLen_ip6 hv
    have hok : VnetOk v (gsoUdpVhdr v (BitVec.ofNat 16 40)) (ip4Ihl d) (h.toBytes ++ gsoUdpSeed (d.drop 20) seed) := by
      rw [← hnet]
      refine gsoUdpVhdr_ok ?_ ?_
      · rw [transportLen_ip6 hv, if_pos hproto]
      · rw [hnet, List.length_append, length_ip6, length_gsoUdpSeed hfit, List.length_drop]
        omega
    refine iff_of_true hok ⟨fun hnone => ?_, fun htcp => ?_⟩
    · rw [hgso] at hnone
      exact absurd hnone (by decide)
    · rw [hgso] at htcp
      exact absurd htcp (by decide)

/-! ### Aggregates to IPv4 -/

theorem tcpHdrLen_toBytes (t : TcpHdr) (rest : List Byte) :
    tcpHdrLen (t.toBytes ++ rest) = (t.doffRes >>> 4).toNat * 4 := rfl

/-- A TCP packet to IPv4 with the header `t`, taken from the front of `l4`. -/
private theorem tcpPacket4 {h : Ip4} {t : TcpHdr} (l4 : List Byte) {rest : List Byte} {l4Len : Nat}
    (hv : h.verIhl = 0x45)
    (hproto : h.proto = 6) (hmin : 20 ≤ l4Len) (hle : l4Len ≤ l4.length) (hdoff : t.doffRes = getU8 (l4.take l4Len) 12)
    (hoptions : t.options = (l4.take l4Len).drop 20) :
    netLen (h.toBytes ++ t.toBytes ++ rest) = 20 ∧
    transportLen (h.toBytes ++ t.toBytes ++ rest) = tcpHdrLen l4 ∧
    (h.toBytes ++ t.toBytes ++ rest).length = 20 + (l4Len + rest.length) := by
  have hbyte : t.doffRes = getU8 l4 12 := by rw [hdoff, getU8_take (by omega)]
  rw [List.append_assoc]
  refine ⟨netLen_ip4 hv, ?_, ?_⟩
  · rw [transportLen_ip4 hv, hproto, if_neg (by decide), tcpHdrLen_toBytes, hbyte]
    rfl
  · rw [List.length_append, List.length_append, length_ip4, length_tcp, hoptions, List.length_drop, List.length_take]
    omega

/-- The header of the head of a split aggregate, which is cut to the length of the packet. -/
private theorem gsoTcpHead_ok {headLen : Nat} {src4 dst4 : In4} (h : TcpTo4 d v)
    (hle : tcpHdrLen (d.drop 40) + headLen ≤ (d.drop 40).length)
    (hw : some w = (gsoTcpHead g v (gsoPkt6 d v 6) (tcpHdrLen (d.drop 40)) headLen src4 dst4).1) :
    VnetOk v w 40 (gsoTcpHead g v (gsoPkt6 d v 6) (tcpHdrLen (d.drop 40)) headLen src4 dst4).2 := by
  obtain ⟨-, -, hstart, hoffset, hheaders, hlen⟩ := gsoValidateTransportVnet_iff.1 h.hvnet
  have hmin := h.hmin
  have hmax := h.hmax
  have hl4 : ((d.drop 40).take (tcpHdrLen (d.drop 40) + headLen)).length = tcpHdrLen (d.drop 40) + headLen :=
    List.length_take_of_le hle
  have hsame : tcpHdrLen ((d.drop 40).take (tcpHdrLen (d.drop 40) + headLen)) = tcpHdrLen (d.drop 40) := by
    rw [tcpHdrLen, getU8_take (by omega)]
    rfl
  unfold gsoTcpHead at hw ⊢
  dsimp only at hw ⊢
  rw [show (gsoPkt6 d v 6).data = d.drop 40 from rfl] at hw ⊢
  generalize hl : (d.drop 40).take (tcpHdrLen (d.drop 40) + headLen) = l4 at hw hl4 hsame ⊢
  generalize hn : tcpHdrLen (d.drop 40) = l4Len at *
  generalize hip4 : gsoIp4 _ _ _ _ _ _ _ _ _ = ip4 at hw ⊢
  have hv : ip4.verIhl = 0x45 := by rw [← hip4]; rfl
  have hproto : ip4.proto = 6 := by rw [← hip4]; rfl
  generalize hout : ip4.toBytes ++ _ ++ l4.drop l4Len = out at hw ⊢
  obtain ⟨hnet, htransport, hlength⟩ : netLen out = 20 ∧ transportLen out = tcpHdrLen l4 ∧
      out.length = 20 + (l4Len + (l4.drop l4Len).length) := by
    rw [← hout]
    exact tcpPacket4 l4 hv hproto hmin (by omega) rfl rfl
  rw [List.length_drop, hl4] at hlength
  rw [hsame] at htransport
  have hmoved : (v.hdrLen + BitVec.ofNat 16 20 - BitVec.ofNat 16 40).toNat = (v.hdrLen.toNat + 20 - 40) % 65536 :=
    moved_toNat (by omega) (by decide)
  have hwstart : (v.csumStart + BitVec.ofNat 16 20 - BitVec.ofNat 16 40).toNat = 20 := by
    rw [moved_toNat (by rw [hstart]) (by decide), hstart]
  have hx := v.hdrLen.isLt
  split at hw
  · next hcut =>
    have hcut : out.length < (v.hdrLen + BitVec.ofNat 16 20 - BitVec.ofNat 16 40).toNat := hcut
    obtain ⟨hhdr, hcsum, hoff⟩ := gsoNormalizeTcpOutput_fields (Option.some.inj hw)
    have hhdr : w.hdrLen.toNat = out.length := by
      rw [hhdr, BitVec.toNat_ofNat]
      omega
    have hcsum : w.csumStart.toNat = 20 := (congrArg BitVec.toNat hcsum).trans hwstart
    have hoff : w.csumOffset.toNat = 16 := (congrArg BitVec.toNat hoff).trans hoffset
    exact ⟨by rw [hcsum, hnet], by omega, by omega, fun _ => by omega, .whole hhdr⟩
  · next hfits =>
    have hfits : ¬out.length < (v.hdrLen + BitVec.ofNat 16 20 - BitVec.ofNat 16 40).toNat := hfits
    obtain rfl := Option.some.inj hw
    have hok := MovedTcp.ok (t := vnetGsoTcpv4) (n := headLen)
      (⟨hstart, hoffset, hheaders, htransport, hmin, by omega⟩ : MovedTcp v 40 l4Len out) (by omega)
    rw [hnet] at hok
    exact hok.2 (by omega)

/-- The header of the tail of a split aggregate. -/
private theorem gsoTcpTail_ok {headLen : Nat} {src4 dst4 : In4} {ident : BitVec 16} (h : TcpTo4 d v)
    (hw : some w = (gsoTcpTail g (gsoPkt6 d v 6) (tcpHdrLen (d.drop 40)) headLen src4 dst4 ident).1) :
    VnetOk v w 40 (gsoTcpTail g (gsoPkt6 d v 6) (tcpHdrLen (d.drop 40)) headLen src4 dst4 ident).2 := by
  have hmin := h.hmin
  have hfit := h.hfit
  have hmost := tcpHdrLen_le (d.drop 40)
  have hdata : (d.drop 40).length = d.length - 40 := List.length_drop
  unfold gsoTcpTail at hw ⊢
  dsimp only at hw ⊢
  rw [show (gsoPkt6 d v 6).data = d.drop 40 from rfl] at hw ⊢
  by_cases hvnet : 0 < g.vnetHdrSz
  · rw [if_pos hvnet] at hw ⊢
    obtain rfl := Option.some.inj hw
    dsimp only
    generalize hout : Ip4.toBytes _ ++ TcpHdr.toBytes _ ++ _ = out
    obtain ⟨hnet, htransport, hlength⟩ : netLen out = 20 ∧ transportLen out = tcpHdrLen (d.drop 40) ∧
        out.length = 20 + (tcpHdrLen (d.drop 40) + ((d.drop 40).drop (tcpHdrLen (d.drop 40) + headLen)).length) := by
      rw [← hout]
      exact tcpPacket4 (d.drop 40) rfl rfl hmin (by omega) rfl rfl
    have hhdr : (BitVec.ofNat 16 (20 + tcpHdrLen (d.drop 40))).toNat = 20 + tcpHdrLen (d.drop 40) := by
      rw [BitVec.toNat_ofNat]
      omega
    refine ⟨hnet.symm, ?_, hhdr.le.trans (by omega), fun hgso => absurd ?_ hgso, .headers (hhdr.trans (by omega))⟩
    · show 20 + 16 + 2 ≤ out.length
      omega
    · show vnetGsoNone &&& ~~~vnetGsoEcn = vnetGsoNone
      decide
  · rw [if_neg hvnet] at hw
    cases hw

/-- The header of an aggregate to IPv4. -/
private theorem vnetOk_of_gsoOutput6 (h : GsoOutput6 g d v (some w) packet) : VnetOk v w 40 packet := by
  generalize hout : some w = out at h
  cases h with
  | error | segment => cases hout
  | tcpHead src4 dst4 h hle => exact gsoTcpHead_ok h hle hout
  | tcpTail src4 dst4 ident h => exact gsoTcpTail_ok h hout
  | @tcp h seed hv hproto htcp =>
    cases hout
    obtain ⟨-, -, hstart, hoffset, hheaders, hlen⟩ := gsoValidateTransportVnet_iff.1 htcp.hvnet
    have hmin := htcp.hmin
    have hfit := htcp.hfit
    have hdata : (d.drop 40).length = d.length - 40 := List.length_drop
    have hput : (put (d.drop 40) 16 (be16 seed)).length = d.length - 40 := by
      rw [length_put_be16 (by omega), hdata]
    have hnet : netLen (h.toBytes ++ put (d.drop 40) 16 (be16 seed)) = 20 := netLen_ip4 hv
    have hpacket : (h.toBytes ++ put (d.drop 40) 16 (be16 seed)).length = 20 + (d.length - 40) := by
      rw [List.length_append, hput, length_ip4]
    have hmoved : MovedTcp v 40 (tcpHdrLen (d.drop 40)) (h.toBytes ++ put (d.drop 40) 16 (be16 seed)) := by
      refine ⟨hstart, hoffset, hheaders, ?_, hmin, by omega⟩
      rw [transportLen_ip4 hv, hproto, if_neg (by decide), tcpHdrLen_put (by omega)]
    have hok := hmoved.ok (t := vnetGsoTcpv4) (n := ((d.drop 40).drop (tcpHdrLen (d.drop 40))).length) (by omega)
    rw [hnet] at hok
    have := v.hdrLen.isLt
    exact hok.2 (by omega)
  | @udp h seed hv hproto hfit =>
    cases hout
    have hnet : netLen (h.toBytes ++ gsoUdpSeed (d.drop 40) seed) = 20 := netLen_ip4 hv
    show VnetOk v (gsoUdpVhdr v (BitVec.ofNat 16 20)) 40 _
    rw [← hnet]
    refine gsoUdpVhdr_ok ?_ ?_
    · rw [transportLen_ip4 hv, if_pos hproto]
    · rw [hnet, List.length_append, length_ip4, length_gsoUdpSeed hfit, List.length_drop]
      omega

/-! ### Plain packets -/

theorem needsCsum_clearNeedsCsum (vhdr : Option VnetHdr) : needsCsum (clearNeedsCsum vhdr) = false := by
  have hall : ∀ b : Byte, b &&& ~~~vnetNeedsCsum &&& vnetNeedsCsum = 0 := by decide
  cases vhdr with
  | none => rfl
  | some v => exact decide_eq_false (not_not.2 (hall v.flags))

/-- A checksum that is still left to the device is at the place it had, in a complete transport header. -/
private theorem partialCsum_vhdr {x : PayloadCtx} {proto : Byte} {csumOff : Nat} {fix : BitVec 16 → BitVec 16}
    {p : Payload}
    (h : needsCsum (x.partialCsum g proto csumOff fix p).2) : (x.partialCsum g proto csumOff fix p).2 = p.2 := by
  unfold PayloadCtx.partialCsum at h ⊢
  by_cases hvnet : g.vnetHdrSz = 0
  · rw [if_pos hvnet] at h
    rw [needsCsum_clearNeedsCsum] at h
    cases h
  · rw [if_neg hvnet]

private theorem udp_needsCsum {x : PayloadCtx} {p q : Payload} (h : x.udp g false p = some q) (hneeds : needsCsum q.2) :
    q.2 = p.2 ∧ 8 ≤ p.1.length := by
  unfold PayloadCtx.udp at h
  split at h
  · rw [if_neg Bool.false_ne_true] at h
    cases h
  next hlen =>
  refine ⟨?_, Nat.not_lt.1 hlen⟩
  split at h
  · dsimp only at h
    split at h
    · cases h
    split at h
    · cases h
    cases h
    exact partialCsum_vhdr hneeds
  split at h
  · rw [if_neg Bool.false_ne_true] at h
    split at h <;> cases h <;> rfl
  · cases h
    rfl

private theorem tcp_needsCsum {x : PayloadCtx} {p q : Payload} (h : x.tcp g false p = some q) (hneeds : needsCsum q.2) :
    q.2 = p.2 ∧ 20 ≤ p.1.length := by
  unfold PayloadCtx.tcp at h
  split at h
  · rw [if_neg Bool.false_ne_true] at h
    cases h
  next hlen =>
  refine ⟨?_, Nat.not_lt.1 hlen⟩
  split at h
  · dsimp only at h
    split at h
    · cases h
    split at h
    · cases h
    cases h
    exact partialCsum_vhdr hneeds
  · cases h
    rfl

/-- The place of the checksum in a transport header. -/
def csumPlace (proto : Byte) : Nat := if proto = 17 then 6 else 16

private theorem xlatePayload_needsCsum {x : PayloadCtx} {proto : Byte} {p q : Payload} (hproto : IsTransport proto)
    (hx : x.noninitial → x.fragmented) (hicmp : ¬IsTransport x.icmpProto)
    (h : xlatePayload g x proto false p = some q) (hneeds : needsCsum q.2) :
    q.2 = p.2 ∧ csumPlace proto + 2 ≤ p.1.length := by
  unfold xlatePayload at h
  split at h
  · cases h
  next hfrag =>
  split at h
  · next hnon =>
    cases h
    exact absurd ⟨hx hnon, hneeds⟩ hfrag
  have hne : proto ≠ x.icmpProto := fun heq => hicmp (heq ▸ hproto)
  rw [if_neg hne] at h
  rcases hproto with rfl | rfl
  · rw [if_neg (by decide), if_pos rfl] at h
    obtain ⟨hsame, hlen⟩ := tcp_needsCsum h hneeds
    exact ⟨hsame, le_trans (by decide) hlen⟩
  · rw [if_pos rfl] at h
    exact udp_needsCsum h hneeds

private theorem outVhdr_eq_some {proto : Byte} {l3Len : BitVec 16} {vhdr : Option VnetHdr}
    (h : outVhdr proto l3Len vhdr = some w) : needsCsum vhdr ∧ IsTransport proto ∧ ∃ v, vhdr = some v ∧ w = { v with
      gsoType := vnetGsoNone, csumStart := l3Len, csumOffset := BitVec.ofNat 16 (csumPlace proto) } := by
  unfold outVhdr at h
  split at h
  · next hneeds =>
    obtain ⟨v, hv, rfl⟩ := Option.map_eq_some_iff.1 h
    refine ⟨hneeds.1, hneeds.2, v, hv, ?_⟩
    unfold csumPlace
    split <;> rfl
  · cases h

/-- The header of a plain packet is right if its `hdr_len` is. -/
private theorem plainVhdr_ok {old : Nat} {proto : Byte} {l3Len : BitVec 16} (hstart : l3Len.toNat = netLen packet)
    (hfit : netLen packet + (csumPlace proto + 2) ≤ packet.length) :
    VnetOk v { v with
      gsoType := vnetGsoNone, csumStart := l3Len, csumOffset := BitVec.ofNat 16 (csumPlace proto) } old packet ↔
    v.hdrLen.toNat ≤ packet.length := by
  refine ⟨fun h => h.hlen, fun h => ⟨hstart, ?_, h, fun hgso => absurd ?_ hgso, .kept rfl⟩⟩
  · show l3Len.toNat + (BitVec.ofNat 16 (csumPlace proto)).toNat + 2 ≤ packet.length
    have hle : csumPlace proto ≤ 16 := by
      unfold csumPlace
      split <;> omega
    rw [BitVec.toNat_ofNat]
    omega
  · show vnetGsoNone &&& ~~~vnetGsoEcn = vnetGsoNone
    decide

private theorem vnetOk_of_output4 {p : Pkt4} (hp : Parsed4 d (some v) false p) (hplain : v.gso = vnetGsoNone)
    (h : Output4 g p (some w) packet) : VnetOk v w (ip4Ihl d) packet ↔ HdrLenFits4 d v := by
  generalize hout : some w = out at h
  cases h with
  | reply | error | fragment | translated => cases hout
  | @whole src dest q hdata hq =>
    have hlen := length_payload4to6 hp hq
    obtain ⟨r, hr, rfl⟩ := Option.map_eq_some_iff.1 hq
    obtain ⟨hneeds, hproto, v', hv', rfl⟩ := outVhdr_eq_some hout.symm
    have hicmp : ¬IsTransport 1 := fun h => h.ne_icmp.1 rfl
    obtain ⟨hsame, hplace⟩ := xlatePayload_needsCsum hproto (fun h => noninitial_isFragment h) hicmp hr hneeds
    have hplace : csumPlace p.dataProto + 2 ≤ p.data.length := hplace
    cases hp.hvhdr.symm.trans (hsame.symm.trans hv')
    have hnet : netLen ((dataHeader4to6 p src dest).toBytes ++ r.1) = 40 := netLen_ip6 rfl
    have hpacket : ((dataHeader4to6 p src dest).toBytes ++ r.1).length = 40 + (ip4Data d).length := by
      rw [List.length_append, length_ip6, ← hp.hdata]
      exact congrArg (40 + ·) hlen
    have hfit : 40 + (csumPlace p.dataProto + 2) ≤ 40 + (ip4Data d).length := by
      rw [← hp.hdata]
      omega
    rw [plainVhdr_ok (by rw [hnet]; rfl) (by rw [hnet, hpacket]; exact hfit), hpacket]
    refine ⟨fun h => ⟨fun _ => h, fun htcp => ?_⟩, fun h => h.hplain hplain⟩
    rw [hplain] at htcp
    exact absurd htcp (by decide)

private theorem vnetOk_of_output6 {p : Pkt6} (hparse : parseIp6 d (some v) false = .ok p) (hplain : v.gso = vnetGsoNone)
    (h : Output6 g p (some w) packet) : VnetOk v w 40 packet ↔ HdrLenFits6 d v := by
  generalize hout : some w = out at h
  cases h with
  | reply | error | translated => cases hout
  | @whole src dest ip4 q hdata hfit hip4 hq =>
    have hlen := length_payload6to4 hparse hq
    obtain ⟨-, -, -, -, -, hvhdr⟩ := parseIp6_eq_ok hparse
    obtain ⟨r, hr, rfl⟩ := Option.map_eq_some_iff.1 hq
    obtain ⟨hneeds, hproto, v', hv', rfl⟩ := outVhdr_eq_some hout.symm
    have hicmp : ¬IsTransport 58 := fun h => h.ne_icmp.2 rfl
    obtain ⟨hsame, hplace⟩ := xlatePayload_needsCsum hproto (fun h => payloadCtx6to4_fragmented h) hicmp hr hneeds
    have hplace : csumPlace p.dataProto + 2 ≤ p.data.length := hplace
    cases hvhdr.symm.trans (hsame.symm.trans hv')
    have hnet : netLen ((ip4.withCksum g.endian).toBytes ++ r.1) = 20 := netLen_ip4 hip4.hverIhl
    have hpacket : ((ip4.withCksum g.endian).toBytes ++ r.1).length = 20 + p.data.length := by
      rw [List.length_append, length_ip4]
      exact congrArg (20 + ·) hlen
    have hfit : 20 + (csumPlace p.dataProto + 2) ≤ 20 + p.data.length := by omega
    rw [plainVhdr_ok (by rw [hnet]; rfl) (by rw [hnet, hpacket]; exact hfit), hpacket]
    refine ⟨fun h _ p' hparse' => ?_, fun h => h hplain p hparse⟩
    cases hparse.symm.trans hparse'
    exact h

/-! ### The two entry points -/

/-- **Virtio headers are right** if the `hdr_len` received is, as far as it is passed on or moved. -/
theorem vnet_wellFormed (g : Gcfg) (offload : Bool) (d : List Byte) (v : VnetHdr) (ans : (op : PktOp) → op.Ans) :
    (∀ w packet, (some w, packet) ∈ sent ans (handleIp4 g offload d (some v)) →
      (VnetOk v w (ip4Ihl d) packet ↔ HdrLenFits4 d v)) ∧
    ∀ w packet, (some w, packet) ∈ sent ans (handleIp6 g offload d (some v)) →
      (VnetOk v w 40 packet ↔ HdrLenFits6 d v) := by
  have hplain : isGso (some v) = false → v.gso = vnetGsoNone := fun h => not_not.1 (of_decide_eq_false h)
  refine ⟨fun w packet hmem => ?_, fun w packet hmem => ?_⟩
  · rcases handleIp4_output.mem hmem with ⟨hgso, p, hparse, hvalid, h⟩ | ⟨v', hv', hgso, h⟩
    · exact vnetOk_of_output4 (parsed4_of_parseIp4 hparse) (hplain hgso) h
    · cases hv'
      exact vnetOk_of_gsoOutput4 h
  · rcases handleIp6_output.mem hmem with ⟨hgso, p, ⟨hparse, hvalid, h⟩ | ⟨-, -, word, hnone, -⟩⟩ | ⟨v', hv', hgso, h⟩
    · exact vnetOk_of_output6 hparse (hplain hgso) h
    · cases hnone
    · cases hv'
      refine iff_of_true (vnetOk_of_gsoOutput6 h) fun hnone => absurd hnone (of_decide_eq_true hgso)

/-- A UDP packet of 48 bytes. -/
def shortIp6 : List Byte :=
  [0x60, 0, 0, 0, 0, 8, 17, 64, 0x20, 0x01, 0x0d, 0xb8, 0, 0, 0, 0, 0, 0, 0, 0, 0xc0, 0, 2, 5, 0x00, 0x64, 0xff, 0x9b,
    0, 0, 0, 0, 0, 0, 0, 0, 0xc6, 0x33, 0x64, 7, 0x30, 0x39, 0x00, 0x35, 0x00, 0x08, 0x12, 0x34]

/-- A virtio header that leaves its checksum to the device. -/
def shortVnet (hdrLen : BitVec 16) : VnetHdr := ⟨1, vnetGsoNone, hdrLen, 0, 40, 6, 0⟩

/-- The translator with the longer virtio header. -/
def vnetGcfg : Gcfg := { sampleGcfg with vnetHdrSz := 12 }

theorem vnet_wellFormed_short : ∃ w packet,
    (some w, packet) ∈ sent sampleAns (handleIp6 vnetGcfg true shortIp6 (some (shortVnet 28))) ∧
    (VnetOk (shortVnet 28) w 40 packet ↔ HdrLenFits6 shortIp6 (shortVnet 28)) := by
  have hmem : ∃ w packet, (some w, packet) ∈ sent sampleAns (handleIp6 vnetGcfg true shortIp6 (some (shortVnet 28))) :=
    ⟨{ shortVnet 28 with csumStart := 20 }, _, List.mem_singleton_self _⟩
  obtain ⟨w, packet, hmem⟩ := hmem
  exact ⟨w, packet, hmem, (vnet_wellFormed vnetGcfg true shortIp6 (shortVnet 28) sampleAns).2 w packet hmem⟩

/-- With the whole packet as its headers, it is written with the `hdr_len` it had, though it is shorter. -/
theorem not_vnetOk_short : ∃ w packet,
    (some w, packet) ∈ sent sampleAns (handleIp6 vnetGcfg true shortIp6 (some (shortVnet 48))) ∧
    w.needsCsum ∧ w.hdrLen = 48 ∧ packet.length = 28 ∧ ¬VnetOk (shortVnet 48) w 40 packet := by
  have hmem : ∃ x ∈ sent sampleAns (handleIp6 vnetGcfg true shortIp6 (some (shortVnet 48))),
      x.1 = some { shortVnet 48 with csumStart := 20 } ∧ x.2.length = 28 := by decide +kernel
  obtain ⟨⟨_, packet⟩, hmem, rfl, hlength⟩ := hmem
  refine ⟨_, packet, hmem, by decide, rfl, hlength, fun h => ?_⟩
  have hle := h.hlen
  rw [hlength] at hle
  exact absurd hle (by decide)

end Tayga
