import Tayga.Addr

/-!
# Protocol headers

Packets are byte strings; the headers are the structures of `tayga.h` and `gso.h`, every field with the number its
bytes spell in network order.  `toBytes` lays a header out as the structure lies in memory and `ofBytes` reads it.
-/

namespace Tayga

/-! ### Access to bytes -/

/-- The byte at offset `i`. -/
def getU8 (d : List Byte) (i : Nat) : Byte := d.getD i 0

/-- The 16-bit number at offset `i`. -/
def getBe16 (d : List Byte) (i : Nat) : BitVec 16 := getU8 d i ++ getU8 d (i + 1)

/-- The 32-bit number at offset `i`. -/
def getBe32 (d : List Byte) (i : Nat) : BitVec 32 :=
  ofBytes4 (getU8 d i) (getU8 d (i + 1)) (getU8 d (i + 2)) (getU8 d (i + 3))

/-- The IPv6 address at offset `i`. -/
def getIn6 (d : List Byte) (i : Nat) : In6 :=
  ofWords6 (getBe32 d i) (getBe32 d (i + 4)) (getBe32 d (i + 8)) (getBe32 d (i + 12))

/-- The bytes of a 16-bit number. -/
def be16 (x : BitVec 16) : List Byte := [(x >>> 8).setWidth 8, x.setWidth 8]

/-- The bytes of a 32-bit number. -/
def be32 (x : BitVec 32) : List Byte := [byte4 x 0, byte4 x 1, byte4 x 2, byte4 x 3]

/-- The bytes of an IPv6 address. -/
def beIn6 (a : In6) : List Byte := be32 (word6 a 0) ++ be32 (word6 a 1) ++ be32 (word6 a 2) ++ be32 (word6 a 3)

theorem length_beIn6 (a : In6) : (beIn6 a).length = 16 := rfl

/-- The bytes `s` written over those at offset `i`. -/
def put (d : List Byte) (i : Nat) (s : List Byte) : List Byte := d.take i ++ s ++ d.drop (i + s.length)

theorem getU8_append_left {d rest : List Byte} {i : Nat} (h : i < d.length) : getU8 (d ++ rest) i = getU8 d i := by
  unfold getU8
  rw [List.getD_eq_getElem?_getD, List.getD_eq_getElem?_getD, List.getElem?_append_left h]

theorem getU8_take {d : List Byte} {i n : Nat} (h : i < n) : getU8 (d.take n) i = getU8 d i := by
  unfold getU8
  rw [List.getD_eq_getElem?_getD, List.getD_eq_getElem?_getD, List.getElem?_take_of_lt h]

theorem getU8_drop (d : List Byte) (k i : Nat) : getU8 (d.drop k) i = getU8 d (k + i) := by
  unfold getU8
  rw [List.getD_eq_getElem?_getD, List.getElem?_drop, List.getD_eq_getElem?_getD]

theorem getBe16_drop (d : List Byte) (k i : Nat) : getBe16 (d.drop k) i = getBe16 d (k + i) := by
  unfold getBe16
  rw [getU8_drop, getU8_drop, Nat.add_assoc]

theorem getBe32_drop (d : List Byte) (k i : Nat) : getBe32 (d.drop k) i = getBe32 d (k + i) := by
  unfold getBe32
  rw [getU8_drop, getU8_drop, getU8_drop, getU8_drop, Nat.add_assoc, Nat.add_assoc, Nat.add_assoc]

/-- The two bytes of a number, put together again. -/
theorem append_be16 (x : BitVec 16) : (x >>> 8).setWidth 8 ++ x.setWidth 8 = x := by
  apply BitVec.eq_of_toNat_eq
  have := x.isLt
  rw [BitVec.toNat_append, ← Nat.shiftLeft_add_eq_or_of_lt (BitVec.isLt _), BitVec.toNat_setWidth,
    BitVec.toNat_setWidth, BitVec.toNat_ushiftRight, Nat.shiftLeft_eq, Nat.shiftRight_eq_div_pow]
  omega

private theorem be16_word (b c : Byte) : be16 (b ++ c) = [b, c] := by
  have hb : ((b ++ c : BitVec 16) >>> 8).setWidth 8 = b := by
    apply BitVec.eq_of_toNat_eq
    have hb := b.isLt
    have hc := c.isLt
    rw [BitVec.toNat_setWidth, BitVec.toNat_ushiftRight, BitVec.toNat_append, ← Nat.shiftLeft_add_eq_or_of_lt hc,
      Nat.shiftLeft_eq, Nat.shiftRight_eq_div_pow]
    omega
  have hc : (b ++ c : BitVec 16).setWidth 8 = c := by
    apply BitVec.eq_of_toNat_eq
    have hc := c.isLt
    rw [BitVec.toNat_setWidth, BitVec.toNat_append, ← Nat.shiftLeft_add_eq_or_of_lt hc, Nat.shiftLeft_eq]
    omega
  rw [be16, hb, hc]

theorem getU8_put {l s : List Byte} {i j : Nat} (hi : i < j) (hj : j ≤ l.length) : getU8 (put l j s) i = getU8 l i := by
  have htake : i < (l.take j).length := by
    rw [List.length_take]
    omega
  unfold put
  rw [List.append_assoc, getU8_append_left htake]
  unfold getU8
  rw [List.getD_eq_getElem?_getD, List.getD_eq_getElem?_getD, List.getElem?_take_of_lt hi]

theorem be16_getBe16_append {d : List Byte} {i : Nat} (h : i + 2 ≤ d.length) :
    be16 (getBe16 d i) ++ d.drop (i + 2) = d.drop i := by
  obtain ⟨b0, b1, rest, hd⟩ : ∃ b0 b1 rest, d.drop i = b0 :: b1 :: rest := by
    have hlen : 2 ≤ (d.drop i).length := by
      rw [List.length_drop]
      omega
    match d.drop i, hlen with
    | b0 :: b1 :: rest, _ => exact ⟨b0, b1, rest, rfl⟩
  have hget : getBe16 d i = b0 ++ b1 := by
    unfold getBe16
    rw [show getU8 d i = getU8 (d.drop i) 0 from (getU8_drop d i 0).symm, ← getU8_drop, hd]
    rfl
  rw [hget, be16_word, ← List.drop_drop, hd]
  rfl

/-! ### IPv4 -/

/-- `IP4_F_DF`. -/
def ip4FDf : BitVec 16 := 0x4000

/-- `IP4_F_MF`. -/
def ip4FMf : BitVec 16 := 0x2000

/-- `IP4_F_MASK`. -/
def ip4FMask : BitVec 16 := 0x1fff

/-- `struct ip4`. -/
structure Ip4 where
  verIhl : Byte
  tos : Byte
  length : BitVec 16
  ident : BitVec 16
  flagsOffset : BitVec 16
  ttl : Byte
  proto : Byte
  cksum : BitVec 16
  src : In4
  dest : In4
deriving Repr, DecidableEq

def Ip4.toBytes (h : Ip4) : List Byte :=
  h.verIhl :: h.tos :: (be16 h.length ++ be16 h.ident ++ be16 h.flagsOffset ++ h.ttl :: h.proto ::
    (be16 h.cksum ++ be32 h.src ++ be32 h.dest))

def Ip4.ofBytes (d : List Byte) : Ip4 where
  verIhl := getU8 d 0
  tos := getU8 d 1
  length := getBe16 d 2
  ident := getBe16 d 4
  flagsOffset := getBe16 d 6
  ttl := getU8 d 8
  proto := getU8 d 9
  cksum := getBe16 d 10
  src := getBe32 d 12
  dest := getBe32 d 16

/-! ### IPv6 -/

/-- `IP6_F_MF`. -/
def ip6FMf : BitVec 16 := 0x0001

/-- `IP6_F_MASK`. -/
def ip6FMask : BitVec 16 := 0xfff8

/-- `struct ip6`. -/
structure Ip6 where
  verTcFl : BitVec 32
  payloadLength : BitVec 16
  nextHeader : Byte
  hopLimit : Byte
  src : In6
  dest : In6
deriving Repr, DecidableEq

def Ip6.toBytes (h : Ip6) : List Byte :=
  be32 h.verTcFl ++ be16 h.payloadLength ++ h.nextHeader :: h.hopLimit :: (beIn6 h.src ++ beIn6 h.dest)

def Ip6.ofBytes (d : List Byte) : Ip6 where
  verTcFl := getBe32 d 0
  payloadLength := getBe16 d 4
  nextHeader := getU8 d 6
  hopLimit := getU8 d 7
  src := getIn6 d 8
  dest := getIn6 d 24

/-- The traffic class. -/
def Ip6.tc (h : Ip6) : Byte := (h.verTcFl >>> 20).setWidth 8

/-- `struct ip6_frag`. -/
structure Ip6Frag where
  nextHeader : Byte
  reserved : Byte
  offsetFlags : BitVec 16
  ident : BitVec 32
deriving Repr, DecidableEq

def Ip6Frag.toBytes (h : Ip6Frag) : List Byte :=
  h.nextHeader :: h.reserved :: (be16 h.offsetFlags ++ be32 h.ident)

def Ip6Frag.ofBytes (d : List Byte) : Ip6Frag where
  nextHeader := getU8 d 0
  reserved := getU8 d 1
  offsetFlags := getBe16 d 2
  ident := getBe32 d 4

/-! ### ICMP, TCP and UDP -/

/-- `struct icmp`. -/
structure Icmp where
  type : Byte
  code : Byte
  cksum : BitVec 16
  word : BitVec 32
deriving Repr, DecidableEq

def Icmp.toBytes (h : Icmp) : List Byte := h.type :: h.code :: (be16 h.cksum ++ be32 h.word)

def Icmp.ofBytes (d : List Byte) : Icmp where
  type := getU8 d 0
  code := getU8 d 1
  cksum := getBe16 d 2
  word := getBe32 d 4

/-- `TCP_FLAG_FIN`. -/
def tcpFlagFin : Byte := 0x01

/-- `TCP_FLAG_PSH`. -/
def tcpFlagPsh : Byte := 0x08

/-- `TCP_FLAG_CWR`. -/
def tcpFlagCwr : Byte := 0x80

/-- `struct tcp_hdr` with the options behind it. -/
structure TcpHdr where
  srcPort : BitVec 16
  dstPort : BitVec 16
  seq : BitVec 32
  ackSeq : BitVec 32
  doffRes : Byte
  flags : Byte
  window : BitVec 16
  cksum : BitVec 16
  urgPtr : BitVec 16
  options : List Byte
deriving Repr, DecidableEq

def TcpHdr.toBytes (h : TcpHdr) : List Byte :=
  be16 h.srcPort ++ be16 h.dstPort ++ be32 h.seq ++ be32 h.ackSeq ++ h.doffRes :: h.flags ::
    (be16 h.window ++ be16 h.cksum ++ be16 h.urgPtr) ++ h.options

def TcpHdr.ofBytes (d : List Byte) : TcpHdr where
  srcPort := getBe16 d 0
  dstPort := getBe16 d 2
  seq := getBe32 d 4
  ackSeq := getBe32 d 8
  doffRes := getU8 d 12
  flags := getU8 d 13
  window := getBe16 d 14
  cksum := getBe16 d 16
  urgPtr := getBe16 d 18
  options := d.drop 20

/-- `struct udp_hdr`. -/
structure UdpHdr where
  srcPort : BitVec 16
  dstPort : BitVec 16
  length : BitVec 16
  cksum : BitVec 16
deriving Repr, DecidableEq

def UdpHdr.toBytes (h : UdpHdr) : List Byte :=
  be16 h.srcPort ++ be16 h.dstPort ++ be16 h.length ++ be16 h.cksum

def UdpHdr.ofBytes (d : List Byte) : UdpHdr where
  srcPort := getBe16 d 0
  dstPort := getBe16 d 2
  length := getBe16 d 4
  cksum := getBe16 d 6

/-! ### Virtio headers -/

/-- `VIRTIO_NET_HDR_F_NEEDS_CSUM`. -/
def vnetNeedsCsum : Byte := 1

/-- `VIRTIO_NET_HDR_F_DATA_VALID`. -/
def vnetDataValid : Byte := 2

/-- `VIRTIO_NET_HDR_GSO_NONE`. -/
def vnetGsoNone : Byte := 0

/-- `VIRTIO_NET_HDR_GSO_TCPV4`. -/
def vnetGsoTcpv4 : Byte := 1

/-- `VIRTIO_NET_HDR_GSO_TCPV6`. -/
def vnetGsoTcpv6 : Byte := 4

/-- `VIRTIO_NET_HDR_GSO_UDP_L4`. -/
def vnetGsoUdpL4 : Byte := 5

/-- `VIRTIO_NET_HDR_GSO_ECN`. -/
def vnetGsoEcn : Byte := 0x80

/-- `struct virtio_net_hdr_raw`. -/
structure VnetHdr where
  flags : Byte
  gsoType : Byte
  hdrLen : BitVec 16
  gsoSize : BitVec 16
  csumStart : BitVec 16
  csumOffset : BitVec 16
  numBuffers : BitVec 16
deriving Repr, DecidableEq

/-- `VIRTIO_NET_HDR_F_NEEDS_CSUM` is set. -/
def VnetHdr.needsCsum (h : VnetHdr) : Bool := h.flags &&& vnetNeedsCsum ≠ 0

/-- The GSO type without the ECN bit. -/
def VnetHdr.gso (h : VnetHdr) : Byte := h.gsoType &&& ~~~vnetGsoEcn

/-- The zero header. -/
def VnetHdr.zero : VnetHdr := ⟨0, 0, 0, 0, 0, 0, 0⟩

end Tayga
