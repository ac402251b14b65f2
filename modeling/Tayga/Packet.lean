import Tayga.Checksum
import Tayga.Gcfg
import Tayga.Lib.Program

/-!
# Packets

The packets `handle_ip4` and `handle_ip6` work on, the two parsers, and the ICMP messages the translator sends itself.
What a packet function asks of the rest of the program is an operation: an address mapping, IPv4 identifications, a
write to the TUN device, a count of a dropped packet.  Writes have the bytes after the virtio header; logs and the
statistics of `gso.c` are left out.
-/

namespace Tayga

open Program

/-! ### Operations -/

/-- What a packet function asks of the rest of the program. -/
inductive PktOp where
  | mapIp4ToIp6 (addr4 : In4)
  | mapIp6ToIp4 (addr6 : In6) (dynAlloc : Bool)
  | reserveIp4Ident (count : BitVec 16)
  | write (vhdr : Option VnetHdr) (packet : List Byte)
  | statsDrop (len : Nat)
deriving Repr, DecidableEq

/-- What comes back: the mapped address or the error, the first identification, the result of the write. -/
abbrev PktOp.Ans : PktOp → Type
  | .mapIp4ToIp6 _ => Except Error In6
  | .mapIp6ToIp4 _ _ => Except Error In4
  | .reserveIp4Ident _ => BitVec 16
  | .write _ _ => Int
  | .statsDrop _ => Unit

/-- A packet function. -/
abbrev PktProg (α : Type) := Program PktOp PktOp.Ans α

/-- `tun_writev` and `tun_write_vnet_inplace`, with the result ignored. -/
def emit (vhdr : Option VnetHdr) (packet : List Byte) : PktProg Unit := .call (.write vhdr packet) fun _ => .done ()

/-- `stats_drop`. -/
def statsDrop (len : Nat) : PktProg Unit := .call (.statsDrop len) .done

/-- `MTU_ADJ`. -/
def mtuAdj : Nat := 20

/-! ### Packets -/

/-- `struct pkt` of an IPv4 packet: the bytes of the IP header with its options, and the data after it. -/
structure Pkt4 where
  header : List Byte
  data : List Byte
  dataProto : Byte
  vhdr : Option VnetHdr
deriving Repr, DecidableEq

/-- `struct pkt` of an IPv6 packet: the bytes of the IP header with the extension headers, and the data after them. -/
structure Pkt6 where
  header : List Byte
  frag : Option Ip6Frag
  data : List Byte
  dataProto : Byte
  vhdr : Option VnetHdr
deriving Repr, DecidableEq

def Pkt4.ip4 (p : Pkt4) : Ip4 := Ip4.ofBytes p.header

def Pkt4.headerLen (p : Pkt4) : Nat := p.header.length

/-- `p->icmp`, which points to the data of an ICMP packet. -/
def Pkt4.icmp (p : Pkt4) : Icmp := Icmp.ofBytes p.data

def Pkt6.ip6 (p : Pkt6) : Ip6 := Ip6.ofBytes p.header

/-- The length of the extension headers. -/
def Pkt6.headerLen (p : Pkt6) : Nat := p.header.length - 40

/-- `p->icmp`, which points to the data of an ICMPv6 packet. -/
def Pkt6.icmp (p : Pkt6) : Icmp := Icmp.ofBytes p.data

/-! ### Parsing IPv4 -/

/-- `parse_ip4`: the packet, or what is left of its data where the parser gives up.  `em` is set for a packet quoted
in an ICMP error. -/
def parseIp4 (d : List Byte) (vhdr : Option VnetHdr) (em : Bool) : Except Nat Pkt4 :=
  let ip4 := Ip4.ofBytes d
  let headerLen := (ip4.verIhl &&& 0x0f).toNat * 4
  if d.length < 20 then .error d.length
  else if ip4.verIhl >>> 4 ≠ 4 ∨ headerLen < 20 ∨ d.length < headerLen ∨ ip4.length.toNat < headerLen ∨
      validateIp4Addr ip4.src = some .drop ∨ validateIp4Addr ip4.dest = some .drop then .error d.length
  else
    let p : Pkt4 := ⟨d.take headerLen, (d.take ip4.length.toNat).drop headerLen, ip4.proto, vhdr⟩
    if p.dataProto = 1 then
      if !em ∧ ip4.flagsOffset &&& (ip4FMask ||| ip4FMf) ≠ 0 then .error p.data.length
      else if p.data.length < 8 then .error p.data.length
      else .ok p
    else if p.dataProto = 0 ∨ p.dataProto = 43 ∨ p.dataProto = 44 ∨ p.dataProto = 58 ∨ p.dataProto = 60 then
      .error p.data.length
    else if !em ∧ ip4.flagsOffset &&& ip4FMf ≠ 0 ∧ p.data.length % 8 ≠ 0 then .error p.data.length
    else if 65535 < (ip4.flagsOffset &&& ip4FMask).toNat * 8 + p.data.length then .error p.data.length
    else .ok p

/-! ### Parsing IPv6 -/

/-- The variables of the extension header loop of `parse_ip6`. -/
structure ExtWalk where
  header : List Byte
  dataProto : Byte
  data : List Byte
  segLeft : Byte
  segPtr : Nat
deriving Repr, DecidableEq

/-- `hdr_len` of the extension header at the front of some data. -/
def hdrLen (d : List Byte) : Nat := ((getU8 d 1).toNat + 1) * 8

/-- The loop goes on at this protocol. -/
def isExt (proto : Byte) : Bool := proto = 0 || proto = 43 || proto = 60

namespace ExtWalk

variable (w : ExtWalk)

/-- `seg_left` after the header at the front of the data. -/
def nextSegLeft : Byte := if w.dataProto = 43 then getU8 w.data 3 else w.segLeft

/-- Go over the header at the front of the data. -/
def next : ExtWalk where
  header := w.header ++ w.data.take (hdrLen w.data)
  dataProto := getU8 w.data 0
  data := w.data.drop (hdrLen w.data)
  segLeft := w.nextSegLeft
  segPtr := if w.nextSegLeft = 0 then w.segPtr + hdrLen w.data else w.segPtr

/-- The loop, with the number of headers it may still go over. -/
def loop : Nat → ExtWalk → Except Nat ExtWalk
  | n, w =>
    if isExt w.dataProto then
      match n with
      | 0 => .error w.data.length
      | n + 1 => if w.data.length < 2 ∨ w.data.length < hdrLen w.data then .error w.data.length else loop n w.next
    else .ok w

end ExtWalk

/-- The fragment header is one of a fragment, and not of a whole packet. -/
def Ip6Frag.isFragment (f : Ip6Frag) : Bool := f.offsetFlags &&& (ip6FMask ||| ip6FMf) ≠ 0

/-- What `parse_ip6` comes to: a packet, a drop with what is left of the data, or a routing header with segments left,
for which a Parameter Problem at `ptr` is sent. -/
inductive Parsed6 where
  | ok (p : Pkt6)
  | drop (len : Nat)
  | routing (ptr : Nat) (p : Pkt6)
deriving Repr, DecidableEq

/-- The fragment header, if the headers so far end at one.  No packet comes to the parser with one noted already. -/
def parseFrag (w : ExtWalk) (vhdr : Option VnetHdr) (em : Bool) : Except Nat Pkt6 :=
  if w.dataProto = 44 then
    if w.data.length < 8 then .error w.data.length
    else
      let frag := Ip6Frag.ofBytes w.data
      let p : Pkt6 := ⟨w.header ++ w.data.take 8, some frag, w.data.drop 8, frag.nextHeader, vhdr⟩
      if !em ∧ frag.offsetFlags &&& ip6FMf ≠ 0 ∧ p.data.length % 8 ≠ 0 then .error p.data.length
      else if 65535 < (frag.offsetFlags &&& ip6FMask).toNat + p.data.length then .error p.data.length
      else .ok p
  else .ok ⟨w.header, none, w.data, w.dataProto, vhdr⟩

/-- `parse_ip6`. -/
def parseIp6 (d : List Byte) (vhdr : Option VnetHdr) (em : Bool) : Parsed6 :=
  let ip6 := Ip6.ofBytes d
  if d.length < 40 ∨ ip6.verTcFl >>> 28 ≠ 6 ∨ validateIp6Addr ip6.src ≠ none ∨ validateIp6Addr ip6.dest ≠ none then
    .drop d.length
  else
    match ExtWalk.loop 8 ⟨d.take 40, ip6.nextHeader, (d.drop 40).take ip6.payloadLength.toNat, 0, 40⟩ with
    | .error n => .drop n
    | .ok w =>
      match parseFrag w vhdr em with
      | .error n => .drop n
      | .ok p =>
        if p.dataProto = 58 ∧ !em ∧ p.frag.any Ip6Frag.isFragment then
          .drop p.data.length
        else if p.dataProto = 58 ∧ p.data.length < 8 then .drop p.data.length
        else if p.dataProto = 1 then .drop p.data.length
        else if w.segLeft ≠ 0 then .routing (w.segPtr + 4) p
        else .ok p

/-! ### ICMP messages of the translator -/

/-- A header with its checksum filled in. -/
def Ip4.withCksum (e : Endian) (h : Ip4) : Ip4 :=
  { h with cksum := htons e (ip4HeaderChecksum e { h with cksum := 0 }) }

/-- `host_send_icmp4`. -/
def hostSendIcmp4 (e : Endian) (tos : Byte) (src dest : In4) (icmp : Icmp) (data : List Byte) : PktProg Unit :=
  let ip4 : Ip4 :=
    { verIhl := 0x45
      tos := tos
      length := BitVec.ofNat 16 (20 + 8 + data.length)
      ident := 0
      flagsOffset := 0
      ttl := 64
      proto := 1
      cksum := 0
      src := src
      dest := dest }
  let icmp := { icmp with cksum := 0 }
  let cksum := onesAdd (ipChecksum e data) (ipChecksum e icmp.toBytes)
  emit none ((ip4.withCksum e).toBytes ++ { icmp with cksum := htons e cksum }.toBytes ++ data)

variable (g : Gcfg)

/-- `host_send_icmp4_error`. -/
def hostSendIcmp4Error (type code : Byte) (word : BitVec 32) (orig : Pkt4) : PktProg Unit :=
  if orig.dataProto = 1 ∧ orig.icmp.type ≠ 8 then .done ()
  else hostSendIcmp4 g.endian 0 g.localAddr4 orig.ip4.src ⟨type, code, 0, word⟩
    ((orig.header ++ orig.data).take (576 - 20 - 8))

/-- `host_handle_icmp4`. -/
def hostHandleIcmp4 (p : Pkt4) : PktProg Unit :=
  if p.icmp.type = 8 then
    hostSendIcmp4 g.endian p.ip4.tos p.ip4.dest p.ip4.src { p.icmp with type := 0 } (p.data.drop 8)
  else .done ()

/-- `host_send_icmp6`. -/
def hostSendIcmp6 (e : Endian) (tc : Byte) (src dest : In6) (icmp : Icmp) (data : List Byte) : PktProg Unit :=
  let ip6 : Ip6 :=
    { verTcFl := 0x60000000 ||| tc.setWidth 32 <<< 20
      payloadLength := BitVec.ofNat 16 (8 + data.length)
      nextHeader := 58
      hopLimit := 64
      src := src
      dest := dest }
  let icmp := { icmp with cksum := 0 }
  let cksum := onesAdd (ipChecksum e data) (ipChecksum e icmp.toBytes)
  let cksum := onesAdd cksum (ip6Checksum e ip6 (BitVec.ofNat 32 (data.length + 8)) 58)
  emit none (ip6.toBytes ++ { icmp with cksum := htons e cksum }.toBytes ++ data)

/-- `host_send_icmp6_error`. -/
def hostSendIcmp6Error (type code : Byte) (word : BitVec 32) (orig : Pkt6) : PktProg Unit :=
  if orig.dataProto = 58 ∧ orig.icmp.type ≠ 128 then .done ()
  else hostSendIcmp6 g.endian 0 g.localAddr6 orig.ip6.src ⟨type, code, 0, word⟩
    ((orig.header ++ orig.data).take (1280 - 40 - 8))

/-- `host_handle_icmp6`. -/
def hostHandleIcmp6 (p : Pkt6) : PktProg Unit :=
  if p.icmp.type = 128 then
    hostSendIcmp6 g.endian p.ip6.tc p.ip6.dest p.ip6.src { p.icmp with type := 129 } (p.data.drop 8)
  else .done ()

end Tayga
